import MobileCloudCaching.Aodv.Writes

/-!
# Sequence numbers of routes

A sequence number is compared by `update_aodv_route` before it is written.
`update_aodv_neigh_route` and `recv_rerr` write the number of the message as it is, although the
expiry of a route has stepped the number in the table; and the comparison lets a number pass
that is exactly half the circle away.
-/

namespace MobileCloudCaching.Aodv

open Transition Serial

variable {p : Params} {mem : Mem} {clk : Clock} {s t : Router} {τ : Task}

/-- No entry that is kept has its sequence number set back, self routes apart. -/
def SeqsAdvance (s t : Router) : Prop :=
  ∀ x ∈ s.routes, ∀ y ∈ t.routes, y.ptr = x.ptr → x.selfRoute = false → advance x.seq y.seq

instance (s t : Router) : Decidable (SeqsAdvance s t) :=
  inferInstanceAs (Decidable (∀ x ∈ s.routes, ∀ y ∈ t.routes, _))

/-- The destinations of a route error. -/
def Task.errors (τ : Task) : List AodvDst :=
  match τ.type with
  | .packet (.rerr m) => m.dsts.take m.dstCount.toNat
  | _ => []

/-- An accepted update is not half the circle ahead of the number in the table, nor of
the number that the search has stepped. -/
def Task.UpdateFits (clk : Clock) (τ : Task) (s : Router) : Prop :=
  ∀ u ∈ τ.update clk s, u.accepted clk s = true → ∀ r ∈ foundRoute clk u.ip s,
    ∀ x ∈ s.routes, x.ptr = r.ptr → x.selfRoute = false →
      u.seq ≠ x.seq + half ∧ (x.stale clk = true → u.seq ≠ x.seq + 1 + half)

/-- A hello is not older than the entry of its sender. -/
def Task.HelloFits (mem : Mem) (clk : Clock) (τ : Task) (s : Router) : Prop :=
  ∀ m ∈ τ.heard mem s, ∀ r ∈ foundRoute clk m.dstIp s,
    ∀ x ∈ s.routes, x.ptr = r.ptr → x.selfRoute = false → advance x.seq m.dstSeq

/-- A route error of the next hop is not older than the entry, nor is the number
after it when the entry will be marked. -/
def Task.ErrorsFit (clk : Clock) (τ : Task) (s : Router) : Prop :=
  ∀ d ∈ τ.errors, ∀ r ∈ foundRoute clk d.ip s, r.selfRoute = false → r.nextHop = τ.srcIp →
    ∀ x ∈ s.routes, x.ptr = r.ptr →
      advance x.seq d.seq ∧ (r.routeValid = true → advance x.seq (d.seq + 1))

instance (clk : Clock) (τ : Task) (s : Router) : Decidable (τ.UpdateFits clk s) :=
  inferInstanceAs (Decidable (∀ u ∈ τ.update clk s, u.accepted clk s = true → _))

instance (mem : Mem) (clk : Clock) (τ : Task) (s : Router) : Decidable (τ.HelloFits mem clk s) :=
  inferInstanceAs (Decidable (∀ m ∈ τ.heard mem s, _))

instance (clk : Clock) (τ : Task) (s : Router) : Decidable (τ.ErrorsFit clk s) :=
  inferInstanceAs (Decidable (∀ d ∈ τ.errors, _))

/-- The sequence numbers in the message of `τ` fit the entries that they are written to. -/
def Task.KeepsSeqs (mem : Mem) (clk : Clock) (τ : Task) (s : Router) : Prop :=
  τ.UpdateFits clk s ∧ τ.HelloFits mem clk s ∧ τ.ErrorsFit clk s

instance (mem : Mem) (clk : Clock) (τ : Task) (s : Router) : Decidable (τ.KeepsSeqs mem clk s) :=
  inferInstanceAs (Decidable (_ ∧ _ ∧ _))

/-! ## What becomes of an entry -/

/-- The entry `x` and what it has become while `τ` is handled. -/
structure SeqRel (clk : Clock) (τ : Task) (x y : Route) : Prop where
  self : y.selfRoute = x.selfRoute
  advance : x.selfRoute = false → Serial.advance x.seq y.seq
  /-- an entry that will be marked has not been touched -/
  stale : x.selfRoute = false → y.stale clk = true → y.seq = x.seq
  error : (∃ m, τ.type = .packet (.rerr m)) → y.nextHop = x.nextHop ∧
    (y.routeValid = true → x.routeValid = true ∧ y.lifetime = x.lifetime)
  drop : τ.type = .neighbor → y.routeValid = true → y.seq = x.seq

namespace SeqRel

variable {x y : Route}

theorem refl (clk : Clock) (τ : Task) (x : Route) : SeqRel clk τ x x :=
  ⟨rfl, fun _ => advance_self _, fun _ _ => rfl, fun _ => ⟨rfl, fun h => ⟨h, rfl⟩⟩, fun _ _ => rfl⟩

/-- Marking an entry that has not been touched. -/
theorem expire (h : SeqRel clk τ x y) (hseq : x.selfRoute = false → y.seq = x.seq) :
    SeqRel clk τ x (y.expire clk) where
  self := h.self
  advance hself := by
    have he : (y.expire clk).seq = x.seq + 1 := congrArg (· + 1) (hseq hself)
    rw [he]
    exact advance_add_one _
  stale _ hstale := by simp [Route.stale, Route.expire] at hstale
  error he := ⟨(h.error he).1, fun hv => Bool.noConfusion hv⟩
  drop _ hv := Bool.noConfusion hv

theorem refresh (h : SeqRel clk τ x y) : SeqRel clk τ x (y.refresh clk) := by
  rcases Route.refresh_eq_or clk y with he | ⟨hstale, he⟩
  · rwa [he]
  · rw [he]
    exact h.expire fun hself => h.stale hself hstale

end SeqRel

/-- The tables while `τ` is handled, compared with those before. -/
structure SeqsKept (clk : Clock) (τ : Task) (s t : Router) : Prop where
  distinct : Distinct t
  next : s.nextPtr ≤ t.nextPtr
  rel : ∀ x ∈ s.routes, ∀ y ∈ t.routes, y.ptr = x.ptr → SeqRel clk τ x y
  /-- a route error does not change which entries are found -/
  places : (∃ m, τ.type = .packet (.rerr m)) → t.routes.map (fun r => (r.ptr, r.ip, r.netmask)) =
    s.routes.map fun r => (r.ptr, r.ip, r.netmask)

namespace SeqsKept

theorem refl (h : Distinct s) : SeqsKept clk τ s s where
  distinct := h
  next := le_rfl
  rel x hx y hy he := by
    obtain rfl := h.eq_of_ptr hy hx he
    exact .refl _ _ _
  places _ := rfl

theorem congr (h : SeqsKept clk τ s t) {t' : Router} (hroutes : t'.routes = t.routes)
    (hnext : t'.nextPtr = t.nextPtr) : SeqsKept clk τ s t' :=
  ⟨h.distinct.congr hroutes hnext, hnext ▸ h.next, by rw [hroutes]; exact h.rel,
    by rw [hroutes]; exact h.places⟩

theorem search (h : SeqsKept clk τ s t) (ip : U32) : SeqsKept clk τ s (searched clk ip t) where
  distinct := h.distinct.search ip
  next := h.next
  rel x hx y hy he := by
    obtain ⟨z, hz, rfl | rfl⟩ := exists_left_of_forall₂ marked_searched hy
    · exact h.rel x hx y hz he
    · exact (h.rel x hx z hz (Route.ptr_refresh.symm.trans he)).refresh
  places hτ := by
    rw [← h.places hτ]
    refine map_eq_of_forall₂ marked_searched fun x y hxy => ?_
    rcases hxy with rfl | rfl
    · rfl
    · simp

/-- A write to an entry. -/
theorem put (h : SeqsKept clk τ s t) {r : Route}
    (hplace : (∃ m, τ.type = .packet (.rerr m)) →
      ∃ r' ∈ t.routes, r.ptr = r'.ptr ∧ r.ip = r'.ip ∧ r.netmask = r'.netmask)
    (hrel : ∀ x ∈ s.routes, r.ptr = x.ptr → SeqRel clk τ x r) :
    SeqsKept clk τ s (putRoute r t) where
  distinct := h.distinct.put r
  next := h.next
  rel x hx y hy he := by
    rcases mem_putRoute hy with ⟨rfl, -⟩ | ⟨hy, -⟩
    · exact hrel x hx he
    · exact h.rel x hx y hy he
  places hτ := by
    obtain ⟨r', hr', hptr, hip, hmask⟩ := hplace hτ
    rw [← h.places hτ, putRoute, List.map_map]
    refine List.map_congr_left fun x hx => ?_
    rw [Function.comp_apply]
    split
    · rename_i he
      obtain rfl := h.distinct.eq_of_ptr hx hr' (he.trans hptr)
      rw [hptr, hip, hmask]
    · rfl

/-- A new entry, and a write to it. -/
theorem putNew (h : SeqsKept clk τ s t) (hs : Distinct s) {ip : U32} {r : Route}
    (hτ : ¬∃ m, τ.type = .packet (.rerr m)) (hptr : r.ptr = t.nextPtr) :
    SeqsKept clk τ s (putRoute r (created ip t)) where
  distinct := (h.distinct.created ip).put r
  next := Nat.le_succ_of_le h.next
  rel x hx y hy he := by
    have hlt : x.ptr < t.nextPtr := Nat.lt_of_lt_of_le (hs.lt x hx) h.next
    rcases mem_putRoute hy with ⟨rfl, -⟩ | ⟨hy, -⟩
    · omega
    · rcases mem_created hy with rfl | hy
      · have hnew : (newRoute t.nextPtr ip).ptr = t.nextPtr := rfl
        omega
      · exact h.rel x hx y hy he
  places h := absurd h hτ

theorem filter (h : SeqsKept clk τ s t) {keep : Route → Bool} {t' : Router}
    (hτ : ¬∃ m, τ.type = .packet (.rerr m)) (hroutes : t'.routes = t.routes.filter keep)
    (hnext : t'.nextPtr = t.nextPtr) : SeqsKept clk τ s t' where
  distinct := h.distinct.filter hroutes hnext
  next := hnext ▸ h.next
  rel x hx y hy he := by
    rw [hroutes] at hy
    exact h.rel x hx y (List.mem_filter.1 hy).1 he
  places h := absurd h hτ

theorem broken (h : SeqsKept clk τ s t) (hτ : τ.type = .neighbor) {ip : U32} {t' : Router}
    (hl : Broken clk ip t.routes t'.routes) (hnext : t'.nextPtr = t.nextPtr) :
    SeqsKept clk τ s t' where
  distinct := h.distinct.of_map hl.map_ptr hnext
  next := hnext ▸ h.next
  rel x hx y hy he := by
    obtain ⟨z, hz, rfl | ⟨-, -, hv, rfl⟩⟩ := exists_left_of_forall₂ hl hy
    · exact h.rel x hx y hz he
    · have hrel := h.rel x hx z hz he
      exact hrel.expire fun _ => hrel.drop hτ hv
  places h := by
    obtain ⟨m, hm⟩ := h
    exact TaskType.noConfusion (hτ.symm.trans hm)

/-- The end of a handler. -/
theorem seqsAdvance (h : SeqsKept clk τ s t) : Distinct t ∧ SeqsAdvance s t :=
  ⟨h.distinct, fun x hx y hy he hself => (h.rel x hx y hy he).advance hself⟩

/-- The last write of a handler. -/
theorem putEnd (h : SeqsKept clk τ s t) {r : Route}
    (hr : ∀ x ∈ s.routes, r.ptr = x.ptr → x.selfRoute = false → advance x.seq r.seq) :
    Distinct (putRoute r t) ∧ SeqsAdvance s (putRoute r t) := by
  refine ⟨h.distinct.put r, fun x hx y hy he hself => ?_⟩
  rcases mem_putRoute hy with ⟨rfl, -⟩ | ⟨hy, -⟩
  · exact hr x hx he hself
  · exact (h.rel x hx y hy he).advance hself

end SeqsKept

/-! ## The handlers -/

/-- The entry found is the one at its address, marked if it has run out. -/
theorem eq_refresh_of_foundRoute (hs : Distinct s) {ip : U32} {r x : Route}
    (hr : foundRoute clk ip s = some r) (hx : x ∈ s.routes) (he : r.ptr = x.ptr) :
    r = x.refresh clk := by
  obtain ⟨-, z, hz, rfl⟩ := mem_of_foundRoute hr
  rw [Route.ptr_refresh] at he
  rw [hs.eq_of_ptr hz hx he]

theorem stale_of_foundRoute {ip : U32} {r : Route} (hr : foundRoute clk ip s = some r) :
    r.stale clk = false := by
  obtain ⟨-, z, -, rfl⟩ := mem_of_foundRoute hr
  exact Route.stale_refresh

theorem advance_of_accepted {u : Update} {r x : Route} (hacc : u.accepted clk s = true)
    (hr : foundRoute clk u.ip s = some r) (hrx : r = x.refresh clk) (hne : u.seq ≠ x.seq + half)
    (hne₁ : x.stale clk = true → u.seq ≠ x.seq + 1 + half) : advance x.seq u.seq := by
  have hbefore : before r.seq u.seq = true := by
    rw [Update.accepted, hr] at hacc
    simp only [Update.refused, seqGreater, Option.all_some, Bool.and_eq_true, Bool.not_eq_true',
      Bool.or_eq_false_iff, Bool.not_eq_false'] at hacc
    exact hacc.2.1
  rcases Route.refresh_eq_or clk x with he | ⟨hstale, he⟩
  · rw [hrx, he] at hbefore
    exact advance_of_before hbefore hne
  · rw [hrx, he] at hbefore
    exact advance_of_before_add_one hbefore hne (hne₁ hstale)

/-- Nothing is marked again in the run of the handler that has renewed its lifetime. -/
theorem not_stale_of_lifetime {r : Route} (h : r.lifetime = clk.now + activeRouteTimeout) :
    r.stale clk = false := by
  rw [Route.stale, h, timeBefore_add_self (by decide)]
  rfl

/-- The number of a request is written at the end of a step. -/
theorem SeqsKept.numberEnd (h : SeqsKept clk τ s t) (hs : Distinct s) {ip : U32} {r : Route}
    (hr : foundRoute clk ip s = some r) :
    Distinct (putRoute r.numbered t) ∧ SeqsAdvance s (putRoute r.numbered t) := by
  refine h.putEnd fun x hx he _ => ?_
  have hrx := eq_refresh_of_foundRoute hs hr hx he
  change advance x.seq (r.seq + 1)
  rcases Route.refresh_eq_or clk x with hx | ⟨-, hx⟩
  · rw [hrx, hx]
    exact advance_add_one _
  · rw [hrx, hx]
    exact advance_add_two _

theorem SeqsKept.writes (hs : Distinct s) (hok : τ.KeepsSeqs mem clk s) :
    HandlerWrites p mem clk τ s (SeqsKept clk τ s) fun t => Distinct t ∧ SeqsAdvance s t := by
  obtain ⟨hupdate, hhello, herror⟩ := hok
  constructor
  case congr => exact fun h ht => h.congr (congrArg Prod.fst ht) (congrArg (·.2.1) ht)
  case congrEnd =>
    intro s₁ s₂ h ht
    have hroutes : s₂.routes = s₁.routes := congrArg Prod.fst ht
    refine ⟨h.1.congr hroutes (congrArg (·.2.1) ht), ?_⟩
    rw [SeqsAdvance, hroutes]
    exact h.2
  case done => exact seqsAdvance
  case search => exact fun ip _ h => h.search ip
  case update =>
    intro u r s₁ hu hacc hr hmem h
    obtain ⟨hnot, hdrop⟩ := not_error_of_update hu
    have hput : SeqsKept clk τ s (putRoute (u.route clk r) s₁) := by
      refine h.put (fun he => absurd he hnot) fun x hx he => ?_
      have hrx := eq_refresh_of_foundRoute hs hr hx he
      refine ⟨(h.rel x hx r hmem he).self, fun hself => ?_, fun _ hstale => ?_,
        fun he => absurd he hnot,
        fun he => absurd he hdrop⟩
      · obtain ⟨hne, hne₁⟩ := hupdate u hu hacc r hr x hx he.symm hself
        exact advance_of_accepted hacc hr hrx hne hne₁
      · rw [not_stale_of_lifetime rfl] at hstale
        exact Bool.noConfusion hstale
    exact hput.congr rfl rfl
  case updateNew =>
    intro u s₁ hu _ _ _ h
    have hput : SeqsKept clk τ s (putRoute (u.route clk (newRoute s₁.nextPtr u.ip))
        (created u.ip s₁)) :=
      h.putNew hs (not_error_of_update hu).1 rfl
    exact hput.congr rfl rfl
  case hello =>
    intro m n r s₁ hm _ hr _ h
    have hkernel : SeqsKept clk τ s (insertKernelRouteEntry r.ip r.nextHop r.netmask
        (deleteKernelRouteEntry r.ip r.netmask s₁)) := h.congr rfl rfl
    exact hkernel.putEnd fun x hx he hself => hhello m hm r hr x hx he.symm hself
  case helloNew =>
    intro m n s₁ hm _ _ _ h
    have hput : SeqsKept clk τ s
        (putRoute (n.route clk m (newRoute s₁.nextPtr m.dstIp)) (created m.dstIp s₁)) :=
      h.putNew hs (not_error_of_heard hm) rfl
    have hend : SeqsKept clk τ s
        (learnNeigh clk n m (newRoute s₁.nextPtr m.dstIp) (created m.dstIp s₁)) :=
          hput.congr rfl rfl
    exact hend.seqsAdvance
  case revive =>
    intro m r s₁ hτ _ _ _ _ _ hmem h
    have hnot := not_error_of_type hτ (by simp)
    refine h.put (fun he => absurd he hnot) fun x hx he => ?_
    have hrel := h.rel x hx r hmem he
    refine ⟨hrel.self, hrel.advance, fun _ hstale => ?_, fun he => absurd he hnot,
      fun he => TaskType.noConfusion (hτ.symm.trans he)⟩
    rw [not_stale_of_lifetime rfl] at hstale
    exact Bool.noConfusion hstale
  case ownSeq =>
    intro m r s₁ hτ hmem hself _ h
    have hnot := not_error_of_type hτ (by simp)
    refine h.put (fun he => absurd he hnot) fun x hx he => ?_
    have hrel := h.rel x hx r hmem he
    have hx : x.selfRoute = true := hrel.self.symm.trans hself
    exact ⟨hrel.self, fun h => Bool.noConfusion (hx.symm.trans h),
      fun h => Bool.noConfusion (hx.symm.trans h), fun he => absurd he hnot,
      fun he => TaskType.noConfusion (hτ.symm.trans he)⟩
  case gateway =>
    exact fun hτ _ _ _ _ h => h.putNew hs (not_error_of_type hτ (by simp)) rfl
  case rerr =>
    intro m d r s₁ hτ hd hr hmem hself hnext h
    have hτ' : ∃ m, τ.type = .packet (.rerr m) := ⟨m, hτ⟩
    have hfits : ∀ x ∈ s.routes, r.ptr = x.ptr → advance x.seq d.seq ∧
        (r.routeValid = true → advance x.seq (d.seq + 1)) := by
      intro x hx he
      have hrel := h.rel x hx r hmem he
      have hptr : (foundRoute clk d.ip s₁).map Route.ptr = (foundRoute clk d.ip s).map Route.ptr :=
        ptr_foundRoute (h.places hτ')
      rw [hr, Option.map_some, eq_comm, Option.map_eq_some_iff] at hptr
      obtain ⟨r₀, hr₀, he₀⟩ := hptr
      have hrx := eq_refresh_of_foundRoute hs hr₀ hx (he₀.trans he)
      have hmemd : d ∈ τ.errors := by
        rw [Task.errors, hτ]
        exact hd
      obtain ⟨hadv, hadv₁⟩ :=
        herror d hmemd r₀ hr₀ (by rw [hrx, Route.selfRoute_refresh, ← hrel.self, hself])
        (by rw [hrx, Route.nextHop_refresh, ← (hrel.error hτ').1, hnext]) x hx (he₀.trans he).symm
      refine ⟨hadv, fun hv => hadv₁ ?_⟩
      -- a valid entry has not been marked by the message so far
      obtain ⟨hxv, hlt⟩ := (hrel.error hτ').2 hv
      have hstale : x.stale clk = false := by
        have := stale_of_foundRoute hr
        rwa [Route.stale, hlt, hrel.self, hv, ← hxv] at this
      rw [hrx, Route.refresh, hstale]
      exact hxv
    have hput : ∀ x ∈ s.routes, r.ptr = x.ptr → SeqRel clk τ x { r with seq := d.seq } := by
      intro x hx he
      have hrel := h.rel x hx r hmem he
      refine ⟨hrel.self, fun _ => (hfits x hx he).1, fun _ hstale => ?_, hrel.error,
        fun he => TaskType.noConfusion (hτ.symm.trans he)⟩
      exact Bool.noConfusion ((stale_of_foundRoute hr).symm.trans hstale)
    refine ⟨fun _ => h.put (fun _ => ⟨r, hmem, rfl, rfl, rfl⟩) hput, fun hv => ?_⟩
    refine h.put (fun _ => ⟨r, hmem, rfl, rfl, rfl⟩) fun x hx he => ?_
    have hrel := hput x hx he
    exact ⟨hrel.self, fun _ => (hfits x hx he).2 hv,
      fun _ hstale => by simp [Route.stale, Route.expire] at hstale,
      fun hτ => ⟨(hrel.error hτ).1, fun hv => Bool.noConfusion hv⟩, fun _ hv => Bool.noConfusion hv⟩
  case flush =>
    intro r s₁ hτ hmem _ _ _ h
    have hnot : ¬∃ m, τ.type = .packet (.rerr m) :=
      hτ.elim (not_error_of_type · (by simp)) (not_error_of_type · (by simp))
    refine h.put (fun he => absurd he hnot) fun x hx he => ?_
    obtain rfl := hs.eq_of_ptr hmem hx he
    exact (SeqRel.refl clk τ r).expire fun _ => rfl
  case flushRemove =>
    intro r s₁ hτ _ _ _ _ h
    exact h.filter (hτ.elim (not_error_of_type · (by simp)) (not_error_of_type · (by simp))) rfl rfl
  case drop =>
    intro r x l s₁ hτ _ _ _ _ h hl hxl _ hv
    have hbroken : SeqsKept clk τ s { deleteKernelRouteEntry r.ip r.netmask s₁ with routes := l } :=
      h.broken hτ hl rfl
    refine hbroken.putEnd fun z hz he _ => ?_
    have hseq := (hbroken.rel z hz x hxl he).drop hτ hv
    change advance z.seq (x.seq + 1)
    rw [hseq]
    exact advance_add_one _
  case dropRemove =>
    intro r x l s₁ hτ _ _ _ _ h hl _ _ _
    have hbroken : SeqsKept clk τ s { deleteKernelRouteEntry r.ip r.netmask s₁ with routes := l } :=
      h.broken hτ hl rfl
    have hfilter : SeqsKept clk τ s { deleteKernelRouteEntry r.ip r.netmask s₁ with
        routes := l.filter fun y => y.ptr != x.ptr } :=
      hbroken.filter (not_error_of_type hτ (by simp)) rfl rfl
    exact hfilter.seqsAdvance
  case number => exact fun _ hr _ h => h.numberEnd hs hr

/-! ## Runs -/

theorem seqsAdvance_of_eq (hs : Distinct s) (hroutes : t.routes = s.routes)
    (hnext : t.nextPtr = s.nextPtr) : Distinct t ∧ SeqsAdvance s t := by
  refine ⟨hs.congr hroutes hnext, fun x hx y hy he _ => ?_⟩
  rw [hroutes] at hy
  rw [hs.eq_of_ptr hy hx he]
  exact advance_self _

theorem seqsAdvance_step {e : Event} (hs : Distinct s) (hok : NextTask Task.KeepsSeqs e s)
    (h : step p e s = some t) : Distinct t ∧ SeqsAdvance s t := by
  cases e with
  | packet mem clk a =>
    obtain ⟨n, q, rfl, -⟩ := packetIn_cases (Option.some.inj h)
    exact seqsAdvance_of_eq hs rfl rfl
  | output mem clk daddr =>
    obtain rfl : output p mem clk daddr s = t := Option.some.inj h
    refine output_keeps (P := SeqsKept clk (createTask .hello clk) s)
      (Q := fun t => Distinct t ∧ SeqsAdvance s t) ?_ SeqsKept.seqsAdvance
        (fun ip _ h => h.search ip)
      (fun hr hmem hv _ h => ?_) (fun hr _ h => h.numberEnd hs hr) (.refl hs)
    · intro s₁ s₂ h ht
      have hroutes : s₂.routes = s₁.routes := congrArg Prod.fst ht
      refine ⟨h.1.congr hroutes (congrArg (·.2.1) ht), ?_⟩
      rw [SeqsAdvance, hroutes]
      exact h.2
    · refine h.putEnd fun x hx he hself => ?_
      exact (h.rel x hx _ hmem he).advance hself
  | timer clk =>
    obtain rfl : timerQueueSignal clk s = t := Option.some.inj h
    exact seqsAdvance_of_eq hs rfl rfl
  | thread mem clk =>
    rcases runTask_cases h with ⟨-, rfl⟩ | ⟨τ, hhead, -, hh⟩
    · exact seqsAdvance_of_eq hs rfl rfl
    · have hpop : Distinct { s with taskQ := s.taskQ.tail } := hs.congr rfl rfl
      exact (SeqsKept.writes hpop (hok τ hhead)).handle (.refl hpop) hh

/-- In a run in which the sequence numbers of the messages fit the entries, no
step sets the number of an entry back. -/
theorem seqs_advance {events : List Event} (h₀ : initModule p clk = some s)
    (hok : AllSteps (step p) (NextTask Task.KeepsSeqs) events s) :
    AllSteps (step p) (fun e s => ∀ t ∈ step p e s, SeqsAdvance s t) events s := by
  have hdistinct : Along (step p) Distinct events s :=
    along_of_step (fun _ _ _ hs hok h => (seqsAdvance_step hs hok h).1) (.initModule h₀) hok
  have hboth := (hdistinct.allSteps fun _ _ h => h).and hok
  exact hboth.mono fun e s h t ht => (seqsAdvance_step h.1 h.2 ht).2

theorem seqs_advance_greeting : ∃ s, initModule plainNode (clockAt 0) = some s ∧
    AllSteps (step plainNode) (fun e s => ∀ t ∈ step plainNode e s, SeqsAdvance s t)
      (handled 1 (helloFrom (peer 2) 1) ++ handled 1001 (helloFrom (peer 2) 2)) s := by
  have hok : (initModule plainNode (clockAt 0)).all (fun s => decide (AllSteps (step plainNode)
      (NextTask Task.KeepsSeqs)
      (handled 1 (helloFrom (peer 2) 1) ++ handled 1001 (helloFrom (peer 2) 2)) s)) = true := by
    decide +kernel
  obtain ⟨s, hs⟩ : ∃ s, initModule plainNode (clockAt 0) = some s := ⟨_, initModule_eq _ _⟩
  rw [hs] at hok
  exact ⟨s, hs, seqs_advance hs (of_decide_eq_true hok)⟩

/-- Node 2 is heard again, with the same number, after a packet for it has marked its entry. -/
def silentRun : List Event :=
  handled 1 (helloFrom (peer 2) 5) ++ [.output .plenty (clockAt 4000) (peer 2)] ++
    handled 4100 (helloFrom (peer 2) 5)

/-- The hello takes back the step that the expiry has made. -/
theorem not_seqs_advance_silentRun :
    ¬∀ (p : Params) (clk : Clock) (events : List Event) (s t : Router), initModule p clk = some s →
      exec (step p) events s = some t →
      AllSteps (step p) (fun e s => ∀ t ∈ step p e s, SeqsAdvance s t) events s := by
  intro h
  have hrun : (initModule plainNode (clockAt 0)).any (fun s =>
      (exec (step plainNode) silentRun s).isSome && !decide (AllSteps (step plainNode)
        (fun e s => ∀ t ∈ step plainNode e s, SeqsAdvance s t) silentRun s)) = true := by
          decide +kernel
  obtain ⟨s, hs, hq⟩ := (Option.any_eq_true _ _).1 hrun
  simp only [Bool.and_eq_true, Bool.not_eq_true', decide_eq_false_iff_not,
    Option.isSome_iff_exists] at hq
  obtain ⟨⟨t, ht⟩, hno⟩ := hq
  exact hno (h plainNode _ _ s t hs ht)

end MobileCloudCaching.Aodv
