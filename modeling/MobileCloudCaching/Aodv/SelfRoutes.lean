import MobileCloudCaching.Aodv.Writes

/-!
# The integrity of the self routes

Start-up enters routes for the loopback address, the device and the local subnet.
`gen_rerr`, `recv_rerr` and the clean-up spare them; `update_aodv_route`,
`update_aodv_neigh_route` and `delete_aodv_neigh` do not, and reach them through a search for
an address that a message or a task names.
-/

namespace MobileCloudCaching.Aodv

open Transition

variable {p : Params} {mem : Mem} {clk : Clock} {s t : Router}

/-- `r` is the entry `r₀` as start-up has made it, apart from its numbers. -/
structure Route.Intact (r₀ r : Route) : Prop where
  ptr : r.ptr = r₀.ptr
  ip : r.ip = r₀.ip
  nextHop : r.nextHop = r₀.nextHop
  metric : r.metric = r₀.metric
  selfRoute : r.selfRoute = true
  routeValid : r.routeValid = true

/-- Every entry that start-up makes is in the table, a valid self route
with its address, next hop and metric. -/
def SelfRoutesIntact (p : Params) (s : Router) : Prop :=
  ∀ r₀ ∈ initialRoutes p, ∃ r ∈ s.routes, r₀.Intact r

/-- The handler of `τ` does not write a self route, or writes what it has, and does not drop a
neighbour whose address leads to one. -/
def Task.SparesSelf (mem : Mem) (clk : Clock) (τ : Task) (s : Router) : Prop :=
  (∀ u ∈ τ.update clk s, u.accepted clk s = true → ∀ r ∈ foundRoute clk u.ip s, r.selfRoute = true →
    r.nextHop = u.nextHop ∧ r.metric = u.metric) ∧
  (∀ m ∈ τ.heard mem s, ∀ r ∈ foundRoute clk m.dstIp s, r.selfRoute = true →
    r.nextHop = m.dstIp ∧ r.metric = 1) ∧
  (τ.type = .neighbor → (s.neighs.any fun n => n.ip == τ.srcIp) = true →
    ∀ r ∈ foundRoute clk τ.srcIp s, r.selfRoute = true → r.nextHop ≠ r.ip)

instance (mem : Mem) (clk : Clock) (τ : Task) (s : Router) : Decidable (τ.SparesSelf mem clk s) :=
  inferInstanceAs (Decidable (_ ∧ _ ∧ _))

/-! ## The invariant -/

/-- What the handlers rely on: the addresses of the start-up entries are not used again,
and an entry at one of them is intact. -/
structure Guarded (p : Params) (s : Router) : Prop where
  next : 3 ≤ s.nextPtr
  present : ∀ r₀ ∈ initialRoutes p, ∃ r ∈ s.routes, r.ptr = r₀.ptr
  intact : ∀ r₀ ∈ initialRoutes p, ∀ r ∈ s.routes, r.ptr = r₀.ptr → r₀.Intact r

namespace Guarded

theorem selfRoutesIntact (h : Guarded p s) : SelfRoutesIntact p s := fun r₀ hr₀ => by
  obtain ⟨r, hr, hptr⟩ := h.present r₀ hr₀
  exact ⟨r, hr, h.intact r₀ hr₀ r hr hptr⟩

theorem congr (h : Guarded p s) (hroutes : t.routes = s.routes) (hnext : t.nextPtr = s.nextPtr) :
    Guarded p t :=
  ⟨hnext ▸ h.next, by rw [hroutes]; exact h.present, by rw [hroutes]; exact h.intact⟩

theorem ptr_ne (h : Guarded p s) {r r₀ : Route} (hr : r ∈ s.routes) (hself : r.selfRoute = false)
    (hr₀ : r₀ ∈ initialRoutes p) : r.ptr ≠ r₀.ptr := fun he => by
  have := (h.intact r₀ hr₀ r hr he).selfRoute
  rw [hself] at this
  exact Bool.noConfusion this

/-- Changes that leave self routes alone. -/
theorem of_forall₂ (h : Guarded p s) (hnext : t.nextPtr = s.nextPtr)
    (hl : List.Forall₂ (fun x y => y = x ∨ x.selfRoute = false ∧ y.ptr = x.ptr) s.routes t.routes) :
    Guarded p t where
  next := hnext ▸ h.next
  present r₀ hr₀ := by
    obtain ⟨x, hx, hptr⟩ := h.present r₀ hr₀
    obtain ⟨y, hy, rfl | ⟨-, hxy⟩⟩ := exists_right_of_forall₂ hl hx
    · exact ⟨y, hy, hptr⟩
    · exact ⟨y, hy, hxy.trans hptr⟩
  intact r₀ hr₀ y hy hptr := by
    obtain ⟨x, hx, rfl | ⟨hself, hxy⟩⟩ := exists_left_of_forall₂ hl hy
    · exact h.intact r₀ hr₀ y hx hptr
    · exact absurd (hxy.symm.trans hptr) (h.ptr_ne hx hself hr₀)

theorem search (h : Guarded p s) (ip : U32) : Guarded p (searched clk ip s) := by
  refine h.of_forall₂ rfl (marked_searched.imp fun x y hxy => ?_)
  cases hself : x.selfRoute with
  | true => exact .inl (hxy.elim id fun he => he.trans (Route.refresh_of_self hself))
  | false => exact hxy.imp_right fun he => ⟨rfl, (congrArg Route.ptr he).trans Route.ptr_refresh⟩

/-- A write to an entry, which leaves it intact if it is one of start-up's. -/
theorem put (h : Guarded p s) {r : Route}
    (hr : ∀ r₀ ∈ initialRoutes p, r.ptr = r₀.ptr → r₀.Intact r) : Guarded p (putRoute r s) where
  next := h.next
  present r₀ hr₀ := by
    obtain ⟨x, hx, hptr⟩ := h.present r₀ hr₀
    refine ⟨_, List.mem_map.2 ⟨x, hx, rfl⟩, ?_⟩
    split
    · exact (‹x.ptr = r.ptr› ▸ hptr)
    · exact hptr
  intact r₀ hr₀ x hx hptr := by
    rcases mem_putRoute hx with ⟨rfl, -⟩ | ⟨hx, -⟩
    · exact hr r₀ hr₀ hptr
    · exact h.intact r₀ hr₀ x hx hptr

/-- A write to an entry that is no self route. -/
theorem putOther (h : Guarded p s) {r r' : Route} (hr : r ∈ s.routes) (hself : r.selfRoute = false)
    (hptr : r'.ptr = r.ptr) : Guarded p (putRoute r' s) :=
  h.put fun _ hr₀ he => absurd (hptr.symm.trans he) (h.ptr_ne hr hself hr₀)

/-- A write that keeps next hop and metric of an entry. -/
theorem putSame (h : Guarded p s) {r r' : Route} (hr : r ∈ s.routes) (hptr : r'.ptr = r.ptr)
    (hip : r'.ip = r.ip)
    (hself : r.selfRoute = true → r'.nextHop = r.nextHop ∧ r'.metric = r.metric ∧
      r'.selfRoute = true ∧ r'.routeValid = true) : Guarded p (putRoute r' s) := by
  refine h.put fun r₀ hr₀ he => ?_
  have hin := h.intact r₀ hr₀ r hr (hptr ▸ he)
  obtain ⟨hn, hm, hs, hv⟩ := hself hin.selfRoute
  exact ⟨he, hip.trans hin.ip, hn.trans hin.nextHop, hm.trans hin.metric, hs, hv⟩

/-- A new entry, and a write to it. -/
theorem putNew (h : Guarded p s) {ip : U32} {r : Route} (hptr : r.ptr = s.nextPtr) :
    Guarded p (putRoute r (created ip s)) := by
  have hne : ∀ r₀ ∈ initialRoutes p, r₀.ptr ≠ s.nextPtr := fun r₀ hr₀ he => by
    have h₁ := (mem_initialRoutes hr₀).1
    have h₂ := h.next
    omega
  have hcreated : Guarded p (created ip s) := by
    refine ⟨Nat.le_succ_of_le h.next, fun r₀ hr₀ => ?_, fun r₀ hr₀ r hr he => ?_⟩
    · obtain ⟨x, hx, he⟩ := h.present r₀ hr₀
      refine ⟨x, ?_, he⟩
      unfold created
      dsimp only
      split
      · exact hx
      · exact mem_placeRoute.2 (.inr hx)
    · rcases mem_created hr with rfl | hr
      · exact absurd he.symm (hne r₀ hr₀)
      · exact h.intact r₀ hr₀ r hr he
  exact hcreated.put fun r₀ hr₀ he => absurd (he.symm.trans hptr) (hne r₀ hr₀)

theorem filter (h : Guarded p s) {n : ℕ} (hn : ∀ r₀ ∈ initialRoutes p, n ≠ r₀.ptr)
    (hroutes : t.routes = s.routes.filter fun x => x.ptr != n) (hnext : t.nextPtr = s.nextPtr) :
    Guarded p t where
  next := hnext ▸ h.next
  present r₀ hr₀ := by
    obtain ⟨x, hx, he⟩ := h.present r₀ hr₀
    refine ⟨x, ?_, he⟩
    rw [hroutes]
    exact List.mem_filter.2 ⟨hx, by simpa [he] using (hn r₀ hr₀).symm⟩
  intact r₀ hr₀ x hx he := by
    rw [hroutes] at hx
    exact h.intact r₀ hr₀ x (List.mem_filter.1 hx).1 he

/-- The walk of `gen_rerr` spares self routes. -/
theorem broken (h : Guarded p s) {ip : U32} (hl : Broken clk ip s.routes t.routes)
    (hnext : t.nextPtr = s.nextPtr) : Guarded p t := by
  refine h.of_forall₂ hnext (hl.imp fun x y hxy => hxy.imp_right ?_)
  rintro ⟨-, hself, -, rfl⟩
  exact ⟨hself, rfl⟩

/-- The handler of a task that meets the condition keeps the invariant. -/
theorem writes {τ : Task} (h : Guarded p s) (hok : τ.SparesSelf mem clk s) :
    HandlerWrites p mem clk τ s (Guarded p) (Guarded p) := by
  obtain ⟨hupdate, hhello, hdrop⟩ := hok
  have hspared : ∀ {r : Route}, τ.type = .neighbor →
      (s.neighs.any fun n => n.ip == τ.srcIp) = true →
      foundRoute clk τ.srcIp s = some r → r.nextHop = r.ip → r.selfRoute = false :=
    fun hτ hn hr hnext => Bool.eq_false_iff.2 fun hself => hdrop hτ hn _ hr hself hnext
  constructor
  case congr => exact fun hs ht => hs.congr (congrArg Prod.fst ht) (congrArg (·.2.1) ht)
  case congrEnd => exact fun hs ht => hs.congr (congrArg Prod.fst ht) (congrArg (·.2.1) ht)
  case done => exact id
  case search => exact fun ip _ hs => hs.search ip
  case update =>
    intro u r s₁ hu hacc hr hmem hs
    have hput : Guarded p (putRoute (u.route clk r) s₁) := hs.putSame hmem rfl rfl fun hself => by
      obtain ⟨hnext, hmetric⟩ := hupdate u hu hacc r hr hself
      exact ⟨hnext.symm, hmetric.symm, hself, rfl⟩
    exact hput.congr rfl rfl
  case updateNew =>
    intro u s₁ _ _ _ _ hs
    have hput : Guarded p (putRoute (u.route clk (newRoute s₁.nextPtr u.ip)) (created u.ip s₁)) :=
      hs.putNew rfl
    exact hput.congr rfl rfl
  case hello =>
    intro m n r s₁ hm hn hr hmem hs
    have hput : Guarded p (putRoute (n.route clk m r) s₁) := hs.putSame hmem rfl rfl fun hself => by
      obtain ⟨hnext, hmetric⟩ := hhello m hm r hr hself
      exact ⟨hn.trans hnext.symm, hmetric.symm, hself, rfl⟩
    exact hput.congr rfl rfl
  case helloNew =>
    intro m n s₁ _ _ _ _ hs
    have hput : Guarded p (putRoute (n.route clk m (newRoute s₁.nextPtr m.dstIp))
        (created m.dstIp s₁)) :=
      hs.putNew rfl
    exact hput.congr rfl rfl
  case revive => exact fun _ _ _ _ _ _ hmem hs => hs.putSame hmem rfl rfl fun hself =>
    ⟨rfl, rfl, hself, rfl⟩
  case ownSeq =>
    intro m r s₁ _ hmem hself _ hs
    refine hs.put fun r₀ hr₀ he => ?_
    have hin := hs.intact r₀ hr₀ r hmem he
    exact ⟨he, hin.ip, hin.nextHop, hin.metric, hin.selfRoute, hin.routeValid⟩
  case gateway => exact fun _ _ _ _ _ hs => hs.putNew rfl
  case rerr =>
    exact fun _ _ _ hmem hself _ hs =>
      ⟨fun _ => hs.putOther hmem hself rfl, fun _ => hs.putOther hmem hself rfl⟩
  case flush =>
    exact fun _ hmem _ hself _ hs => hs.put fun r₀ hr₀ he => (h.ptr_ne hmem hself hr₀ he).elim
  case flushRemove =>
    exact fun _ hmem _ hself _ hs => hs.filter (fun r₀ hr₀ => h.ptr_ne hmem hself hr₀) rfl rfl
  case drop =>
    intro r x l s₁ hτ hn hr hnext hmem hs hl _ hptr _
    have hbroken : Guarded p { deleteKernelRouteEntry r.ip r.netmask s₁ with routes := l } :=
      hs.broken hl rfl
    exact hbroken.put fun r₀ hr₀ he =>
      absurd (hptr.symm.trans he) (hs.ptr_ne hmem (hspared hτ hn hr hnext) hr₀)
  case dropRemove =>
    intro r x l s₁ hτ hn hr hnext hmem hs hl _ hptr _
    have hbroken : Guarded p { deleteKernelRouteEntry r.ip r.netmask s₁ with routes := l } :=
      hs.broken hl rfl
    exact hbroken.filter (fun r₀ hr₀ => hptr ▸ hs.ptr_ne hmem (hspared hτ hn hr hnext) hr₀) rfl rfl
  case number =>
    exact fun _ _ hmem hs => hs.put fun r₀ hr₀ he => by
      have hin := hs.intact r₀ hr₀ _ hmem he
      exact ⟨he, hin.ip, hin.nextHop, hin.metric, hin.selfRoute, hin.routeValid⟩

theorem step {e : Event} (h : Guarded p s) (hok : NextTask Task.SparesSelf e s)
    (hs : step p e s = some t) :
    Guarded p t := by
  cases e with
  | packet mem clk a =>
    obtain ⟨n, q, rfl, -⟩ := packetIn_cases (Option.some.inj hs)
    exact h.congr rfl rfl
  | output mem clk daddr =>
    obtain rfl : output p mem clk daddr s = t := Option.some.inj hs
    refine output_keeps (fun hs ht => hs.congr (congrArg Prod.fst ht) (congrArg (·.2.1) ht)) id
      (fun ip _ hs => hs.search ip) (fun _ hmem _ hself hs => hs.putOther hmem hself rfl)
      (fun _ hmem hs => hs.put fun r₀ hr₀ he => ?_) h
    have hin := hs.intact r₀ hr₀ _ hmem he
    exact ⟨he, hin.ip, hin.nextHop, hin.metric, hin.selfRoute, hin.routeValid⟩
  | timer clk =>
    obtain rfl : timerQueueSignal clk s = t := Option.some.inj hs
    exact h.congr rfl rfl
  | thread mem clk =>
    rcases runTask_cases hs with ⟨-, rfl⟩ | ⟨τ, hhead, -, hh⟩
    · exact h
    · have hpop : Guarded p { s with taskQ := s.taskQ.tail } := h.congr rfl rfl
      exact (hpop.writes (hok τ hhead)).handle hpop hh

end Guarded

/-! ## Runs -/

theorem guarded_initModule (h : initModule p clk = some s) : Guarded p s := by
  rw [initModule_eq] at h
  rw [← Option.some.inj h]
  refine ⟨le_rfl, fun r₀ hr₀ => ⟨r₀, hr₀, rfl⟩, fun r₀ hr₀ r hr he => ?_⟩
  obtain rfl : r = r₀ := List.inj_on_of_nodup_map nodup_initialRoutes hr hr₀ he
  exact ⟨rfl, rfl, rfl, rfl, (mem_initialRoutes hr).2.1, (mem_initialRoutes hr).2.2⟩

/-- In a run in which no handler writes a self route or drops a neighbour
behind one, the self routes stay intact. -/
theorem selfRoutes_intact {events : List Event} (h₀ : initModule p clk = some s)
    (hok : AllSteps (step p) (NextTask Task.SparesSelf) events s) :
    Along (step p) (SelfRoutesIntact p) events s :=
  (along_of_step (fun _ _ _ h hok hs => Guarded.step h hok hs) (guarded_initModule h₀) hok).mono
    fun _ h => h.selfRoutesIntact

/-- A hello in the own name, sent by node 2. -/
def echoRun : List Event := handled 1 { helloFrom (peer 1) 1 with srcIp := peer 2 }

theorem selfRoutes_intact_greeting : ∃ s, initModule plainNode (clockAt 0) = some s ∧
    Along (step plainNode) (SelfRoutesIntact plainNode) (handled 1 (helloFrom (peer 2) 1)) s := by
  have hok : (initModule plainNode (clockAt 0)).all (fun s => decide (AllSteps (step plainNode)
      (NextTask Task.SparesSelf) (handled 1 (helloFrom (peer 2) 1)) s)) = true := by decide +kernel
  obtain ⟨s, hs⟩ : ∃ s, initModule plainNode (clockAt 0) = some s := ⟨_, initModule_eq _ _⟩
  rw [hs] at hok
  exact ⟨s, hs, selfRoutes_intact hs (of_decide_eq_true hok)⟩

/-- A hello in the node's own name changes the metric of the route to the device. -/
theorem not_selfRoutes_intact_echoRun :
    ¬∀ (p : Params) (clk : Clock) (events : List Event) (s t : Router), initModule p clk = some s →
      exec (step p) events s = some t → Along (step p) (SelfRoutesIntact p) events s := by
  intro h
  have hrun : (runFrom plainNode (clockAt 0) echoRun).any (fun t =>
      t.routes.all fun r => r.ptr != 1 || r.metric == 1) = true := by decide +kernel
  obtain ⟨s, t, hs, ht, hq⟩ := exists_of_runFrom _ hrun
  have hintact : SelfRoutesIntact plainNode t :=
    Along.reached (by rw [List.append_nil]; exact h plainNode _ _ s t hs ht) ht
  obtain ⟨r, hr, hin⟩ := hintact (devEntry plainNode) (by decide +kernel)
  have hmetric := List.all_eq_true.1 hq r hr
  simp [hin.ptr, hin.metric, devEntry, selfEntry] at hmetric

end MobileCloudCaching.Aodv
