import MobileCloudCaching.Aodv.Writes

/-!
# One entry for each destination

`create_aodv_route` does not look whether there is an entry for its address.  The callers have
searched before, and go on when they have found nothing; only `reply_to_rreq` also makes an entry
when it has found the entry of a local subnet, which can be the entry for the very address.
-/

namespace MobileCloudCaching.Aodv

open Transition Octets

variable {p : Params} {mem : Mem} {clk : Clock} {s t : Router} {τ : Task} {ip : U32}

/-- No two entries of the table are for the same address. -/
def OneRoute (s : Router) : Prop := (s.routes.map Route.ip).Nodup

/-- The addresses that start-up makes entries for are different. -/
def Params.AddressesDiffer (p : Params) : Prop :=
  p.myIp ≠ loopbackIp p ∧ ∀ q ∈ p.localSubnet, q.1 ≠ 0 → q.1 ≠ loopbackIp p ∧ q.1 ≠ p.myIp

/-- A request that is answered or sent on by a node other than a gateway is not for the address
of an entry with a shorter prefix, unless the address belongs to the AODV subnet. -/
def Task.NotForSubnet (p : Params) (_ : Mem) (clk : Clock) (τ : Task) (s : Router) : Prop :=
  match τ.type with
  | .packet (.rreq m) => (τ.update clk s).isSome = true → validAodvNeigh clk τ.srcIp s = true →
    p.gateway = false → aodvSubnetTest p m.dstIp = false → ∀ r ∈ s.routes, r.ip = m.dstIp →
    r.netmask = broadcastIp
  | _ => True

instance (mem : Mem) (clk : Clock) (τ : Task)
    (s : Router) : Decidable (τ.NotForSubnet p mem clk s) := by
  obtain ⟨type⟩ := τ
  unfold Task.NotForSubnet
  cases type with
  | packet msg => cases msg <;> infer_instance
  | _ => infer_instance

/-! ## Ordered tables -/

theorem map_placeRoute (r : Route) (l : List Route) :
    (placeRoute r l).map Route.ip = (l.map Route.ip).orderedInsert (· ≤ ·) r.ip := by
  rw [List.orderedInsert_eq_take_drop, List.takeWhile_map, List.dropWhile_map, placeRoute,
    List.map_append]
  simp only [BitVec.not_le, Function.comp_def, List.map_cons]

theorem mem_map_placeRoute {r : Route} {l : List Route} :
    ip ∈ (placeRoute r l).map Route.ip ↔ ip = r.ip ∨ ip ∈ l.map Route.ip := by
  rw [((placeRoute_perm r l).map Route.ip).mem_iff, List.map_cons, List.mem_cons]

/-- An entry for a new address goes to its place. -/
theorem ascending_placeRoute {r : Route} {l : List Route} (h : (l.map Route.ip).Pairwise (· < ·))
    (hr : r.ip ∉ l.map Route.ip) : ((placeRoute r l).map Route.ip).Pairwise (· < ·) := by
  have hsorted : ((l.map Route.ip).orderedInsert (· ≤ ·) r.ip).Pairwise (· ≤ ·) :=
    List.Pairwise.orderedInsert _ _ (h.imp BitVec.le_of_lt)
  have hnodup : ((l.map Route.ip).orderedInsert (· ≤ ·) r.ip).Nodup :=
    (List.perm_orderedInsert _ _ _).nodup_iff.2 (List.nodup_cons.2 ⟨hr, h.imp BitVec.ne_of_lt⟩)
  rw [map_placeRoute]
  exact (hsorted.and hnodup).imp fun hxy => BitVec.lt_of_le_ne hxy.1 hxy.2

/-- The entries are in strictly ascending order of addresses, so that a search
for an address comes to its entry last. -/
structure Ordered (s : Router) : Prop where
  distinct : Distinct s
  ascending : (s.routes.map Route.ip).Pairwise (· < ·)

namespace Ordered

theorem oneRoute (h : Ordered s) : OneRoute s := List.Pairwise.imp BitVec.ne_of_lt h.ascending

theorem of_map (h : Ordered s) (hd : Distinct t)
    (hmap : t.routes.map Route.ip = s.routes.map Route.ip) :
    Ordered t := ⟨hd, hmap ▸ h.ascending⟩

theorem congr (h : Ordered s) (hroutes : t.routes = s.routes)
    (hnext : t.nextPtr = s.nextPtr) : Ordered t :=
  h.of_map (h.distinct.congr hroutes hnext) (by rw [hroutes])

theorem search (h : Ordered s) (ip : U32) : Ordered (searched clk ip s) :=
  h.of_map (h.distinct.search ip) (map_eq_of_forall₂ marked_searched fun x y hxy => by
    rcases hxy with rfl | rfl
    · rfl
    · exact Route.ip_refresh)

/-- A write that does not change the address of an entry. -/
theorem put (h : Ordered s) {r : Route} (hr : ∀ x ∈ s.routes, x.ptr = r.ptr → r.ip = x.ip) :
    Ordered (putRoute r s) := by
  refine h.of_map (h.distinct.put r) ?_
  rw [putRoute, List.map_map]
  refine List.map_congr_left fun x hx => ?_
  rw [Function.comp_apply]
  split
  · exact hr x hx ‹_›
  · rfl

theorem putOf (h : Ordered s) {r r' : Route} (hr : r ∈ s.routes) (hptr : r'.ptr = r.ptr)
    (hip : r'.ip = r.ip) :
    Ordered (putRoute r' s) :=
  h.put fun x hx he => by rw [h.distinct.eq_of_ptr hx hr (he.trans hptr), hip]

theorem filter (h : Ordered s) {keep : Route → Bool} (hroutes : t.routes = s.routes.filter keep)
    (hnext : t.nextPtr = s.nextPtr) : Ordered t where
  distinct := h.distinct.filter hroutes hnext
  ascending := by
    rw [hroutes]
    exact List.Pairwise.sublist (List.filter_sublist.map _) h.ascending

theorem entryFor_of_mem (h : Ordered s) {r : Route} (hr : r ∈ s.routes) :
    entryFor r.ip s = some r := by
  obtain ⟨l₁, l₂, hl⟩ := List.append_of_mem hr
  have hasc := h.ascending
  rw [hl, List.map_append, List.map_cons, List.pairwise_append, List.pairwise_cons] at hasc
  obtain ⟨-, ⟨hafter, -⟩, hbefore⟩ := hasc
  have hle : ∀ x ∈ l₁, decide (x.ip ≤ r.ip) = true := fun x hx =>
    decide_eq_true (BitVec.le_of_lt (hbefore x.ip (List.mem_map_of_mem hx) r.ip List.mem_cons_self))
  have htail : l₂.takeWhile (fun x => decide (x.ip ≤ r.ip)) = [] := by
    cases l₂ with
    | nil => rfl
    | cons x l =>
      have hlt := hafter x.ip (List.mem_map_of_mem List.mem_cons_self)
      exact List.takeWhile_cons_of_neg (by simpa using hlt)
  rw [entryFor, hl, List.takeWhile_append_of_pos hle,
    List.takeWhile_cons_of_pos (by exact decide_eq_true (BitVec.le_refl r.ip)), htail,
    List.filter_append,
    List.filter_cons_of_pos (by simp [Route.compare])]
  simp

/-- When a search for `ip` finds nothing, or an entry for another
address, there is no entry for `ip`. -/
theorem not_mem_of_found (clk : Clock) (h : Ordered s)
    (hfound : ∀ r, foundRoute clk ip s = some r → r.ip ≠ ip) :
    ip ∉ s.routes.map Route.ip := by
  rintro hmem
  obtain ⟨r, hr, rfl⟩ := List.mem_map.1 hmem
  refine hfound (r.refresh clk) ?_ Route.ip_refresh
  rw [foundRoute_entryFor, h.entryFor_of_mem hr]
  rfl

theorem created (h : Ordered s) (hip : ip ∉ s.routes.map Route.ip) : Ordered (created ip s) where
  distinct := h.distinct.created ip
  ascending := by
    unfold Aodv.created
    dsimp only
    split
    · exact h.ascending
    · exact ascending_placeRoute h.ascending hip

/-- A new entry that has been filled in. -/
theorem putNew (h : Ordered s) (hip : ip ∉ s.routes.map Route.ip) {r : Route}
    (hptr : r.ptr = s.nextPtr) (hr : r.ip = ip) : Ordered (putRoute r (Aodv.created ip s)) :=
  (h.created hip).put fun x hx he => by
    rcases mem_created hx with rfl | hx
    · exact hr
    · exact absurd (he.trans hptr) (Nat.ne_of_lt (h.distinct.lt x hx))

theorem broken (h : Ordered s) {brkDstIp : U32} (hl : Broken clk brkDstIp s.routes t.routes)
    (hnext : t.nextPtr = s.nextPtr) : Ordered t :=
  h.of_map (h.distinct.broken hl hnext) (map_eq_of_forall₂ hl fun x y hxy => by
    rcases hxy with rfl | ⟨-, -, -, rfl⟩ <;> rfl)

end Ordered

/-! ## Steps -/

/-- The entry `r` stands in the table from which a handler has started, or is new. -/
def Route.StemsFrom (s : Router) (r : Route) : Prop :=
  (∃ x ∈ s.routes, x.ptr = r.ptr ∧ x.ip = r.ip ∧ x.netmask = r.netmask) ∨
    s.nextPtr ≤ r.ptr ∧ r.netmask = broadcastIp

/-- What a handler that starts from `s` relies on: new entries are those of single addresses. -/
structure OrderedFrom (s t : Router) : Prop extends Ordered t where
  next : s.nextPtr ≤ t.nextPtr
  stems : ∀ r ∈ t.routes, r.StemsFrom s

namespace OrderedFrom

variable {s₁ : Router}

theorem refl (h : Ordered s) : OrderedFrom s s :=
  ⟨h, le_rfl, fun r hr => .inl ⟨r, hr, rfl, rfl, rfl⟩⟩

theorem search (h : OrderedFrom s s₁) (ip : U32) : OrderedFrom s (searched clk ip s₁) where
  toOrdered := h.toOrdered.search ip
  next := h.next
  stems r hr := by
    obtain ⟨x, hx, hxr⟩ := exists_left_of_forall₂ marked_searched hr
    rcases hxr with rfl | rfl
    · exact h.stems r hx
    · have hstems := h.stems x hx
      unfold Route.StemsFrom at *
      rwa [Route.ptr_refresh, Route.ip_refresh, Route.netmask_refresh]

theorem putOf (h : OrderedFrom s s₁) {r r' : Route} (hr : r ∈ s₁.routes) (hptr : r'.ptr = r.ptr)
    (hip : r'.ip = r.ip) (hmask : r'.netmask = r.netmask) : OrderedFrom s (putRoute r' s₁) where
  toOrdered := h.toOrdered.putOf hr hptr hip
  next := h.next
  stems x hx := by
    rcases mem_putRoute hx with ⟨rfl, -⟩ | ⟨hx, -⟩
    · rw [Route.StemsFrom, hptr, hip, hmask]
      exact h.stems r hr
    · exact h.stems x hx

theorem putNew (h : OrderedFrom s s₁) (hip : ip ∉ s₁.routes.map Route.ip) {r : Route}
    (hptr : r.ptr = s₁.nextPtr) (hr : r.ip = ip) (hmask : r.netmask = broadcastIp) :
    OrderedFrom s (putRoute r (created ip s₁)) where
  toOrdered := h.toOrdered.putNew hip hptr hr
  next := Nat.le_succ_of_le h.next
  stems x hx := by
    rcases mem_putRoute hx with ⟨rfl, -⟩ | ⟨hx, -⟩
    · exact .inr ⟨hptr ▸ h.next, hmask⟩
    · rcases mem_created hx with rfl | hx
      · exact .inr ⟨h.next, rfl⟩
      · exact h.stems x hx

theorem congr (h : OrderedFrom s s₁) (hroutes : t.routes = s₁.routes)
    (hnext : t.nextPtr = s₁.nextPtr) :
    OrderedFrom s t where
  toOrdered := h.toOrdered.congr hroutes hnext
  next := hnext ▸ h.next
  stems := hroutes ▸ h.stems

/-- An entry that the walk of `flush_aodv_route_table` has come to is still for the same address. -/
theorem put_old (h : OrderedFrom s s₁) (hs : Distinct s) {r r' : Route} (hr : r ∈ s.routes)
    (hptr : r'.ptr = r.ptr) (hip : r'.ip = r.ip) (hmask : r'.netmask = r.netmask) :
    OrderedFrom s (putRoute r' s₁) where
  toOrdered := h.toOrdered.put fun x hx he => by
    rcases h.stems x hx with ⟨y, hy, hyptr, hyip, -⟩ | ⟨hle, -⟩
    · rw [hip, ← hyip, hs.eq_of_ptr hy hr ((hyptr.trans he).trans hptr)]
    · exact absurd (hs.lt r hr) (Nat.not_lt.2 (he.trans hptr ▸ hle))
  next := h.next
  stems x hx := by
    rcases mem_putRoute hx with ⟨rfl, -⟩ | ⟨hx, -⟩
    · exact .inl ⟨r, hr, hptr.symm, hip.symm, hmask.symm⟩
    · exact h.stems x hx

theorem filter (h : OrderedFrom s s₁) {keep : Route → Bool}
    (hroutes : t.routes = s₁.routes.filter keep) (hnext : t.nextPtr = s₁.nextPtr) :
    OrderedFrom s t where
  toOrdered := h.toOrdered.filter hroutes hnext
  next := hnext ▸ h.next
  stems r hr := h.stems r (by rw [hroutes] at hr; exact (List.mem_filter.1 hr).1)

/-- `reply_to_rreq` makes an entry only for an address that has none. -/
theorem not_mem_of_makes (h : OrderedFrom s s₁) {m : Rreq} (hτ : τ.type = .packet (.rreq m))
    (hok : τ.NotForSubnet p mem clk s) (hupdate : (τ.update clk s).isSome = true)
    (hvalid : validAodvNeigh clk τ.srcIp s = true) (hmakes : MakesGatewayRoute p clk m.dstIp s₁) :
    m.dstIp ∉ s₁.routes.map Route.ip := by
  refine h.toOrdered.not_mem_of_found clk fun r hr hip => ?_
  obtain ⟨houtside, hfound⟩ := hmakes
  rw [hr] at hfound
  obtain ⟨hgateway, hmask⟩ := hfound
  obtain ⟨-, x, hx, rfl⟩ := mem_of_foundRoute hr
  rw [Route.netmask_refresh] at hmask
  rw [Route.ip_refresh] at hip
  rcases h.stems x hx with ⟨y, hy, -, hyip, hymask⟩ | ⟨-, hbroadcast⟩
  · rw [Task.NotForSubnet, hτ] at hok
    exact hmask (hymask ▸ hok hupdate hvalid hgateway houtside y hy (hyip.trans hip))
  · exact hmask hbroadcast

end OrderedFrom

/-- A handler keeps the table in order, unless it answers a request for a subnet. -/
theorem ordered_writes (hs : Ordered s) (hok : τ.NotForSubnet p mem clk s) :
    HandlerWrites p mem clk τ s (OrderedFrom s) Ordered := by
  have hnone : ∀ {ip s₁}, OrderedFrom s s₁ → foundRoute clk ip s₁ = none →
      ip ∉ s₁.routes.map Route.ip :=
    fun h hf => h.toOrdered.not_mem_of_found clk fun r hr => by simp [hf] at hr
  constructor
  case congr => exact fun h ht => h.congr (congrArg Prod.fst ht) (congrArg (·.2.1) ht)
  case congrEnd => exact fun h ht => h.congr (congrArg Prod.fst ht) (congrArg (·.2.1) ht)
  case done => exact fun h => h.toOrdered
  case search => exact fun ip _ h => h.search ip
  case update =>
    intro u r s₁ _ _ _ hmem h
    have hput : OrderedFrom s (putRoute (u.route clk r) s₁) := h.putOf hmem rfl rfl rfl
    exact hput.congr rfl rfl
  case updateNew =>
    intro u s₁ _ _ _ hf h
    have hput : OrderedFrom s (putRoute (u.route clk (newRoute s₁.nextPtr u.ip))
        (created u.ip s₁)) :=
      h.putNew (hnone h hf) rfl rfl rfl
    exact hput.congr rfl rfl
  case hello =>
    intro m n r s₁ _ _ _ hmem h
    have hput : OrderedFrom s (putRoute (n.route clk m r) s₁) := h.putOf hmem rfl rfl rfl
    exact hput.toOrdered.congr rfl rfl
  case helloNew =>
    intro m n s₁ _ _ _ hf h
    have hput : OrderedFrom s (putRoute (n.route clk m (newRoute s₁.nextPtr m.dstIp))
        (created m.dstIp s₁)) :=
      h.putNew (hnone h hf) rfl rfl rfl
    exact hput.toOrdered.congr rfl rfl
  case revive => exact fun _ _ _ _ _ _ hmem h => h.putOf hmem rfl rfl rfl
  case ownSeq => exact fun _ hmem _ _ h => h.putOf hmem rfl rfl rfl
  case gateway =>
    exact fun hτ hupdate hvalid hmakes _ h =>
      h.putNew (h.not_mem_of_makes hτ hok hupdate hvalid hmakes) rfl rfl rfl
  case rerr =>
    exact fun _ _ _ hmem _ _ h => ⟨fun _ => h.putOf hmem rfl rfl rfl,
      fun _ => h.putOf hmem rfl rfl rfl⟩
  case flush => exact fun _ hmem _ _ _ h => h.put_old hs.distinct hmem rfl rfl rfl
  case flushRemove => exact fun _ _ _ _ _ h => h.filter rfl rfl
  case drop =>
    intro r x l s₁ _ _ _ _ _ h hl hx _ _
    have hbroken : Ordered { deleteKernelRouteEntry r.ip r.netmask s₁ with routes := l } :=
      h.toOrdered.broken hl rfl
    exact hbroken.putOf hx rfl rfl
  case dropRemove =>
    intro r x l s₁ _ _ _ _ _ h hl _ _ _
    have hbroken : Ordered { deleteKernelRouteEntry r.ip r.netmask s₁ with routes := l } :=
      h.toOrdered.broken hl rfl
    exact hbroken.filter rfl rfl
  case number => exact fun _ _ hmem h => h.toOrdered.putOf hmem rfl rfl

namespace Ordered

theorem step {e : Event} (h : Ordered s) (hok : NextTask (Task.NotForSubnet p) e s)
    (hs : step p e s = some t) :
    Ordered t := by
  cases e with
  | packet mem clk a =>
    obtain ⟨n, q, rfl, -⟩ := packetIn_cases (Option.some.inj hs)
    exact h.congr rfl rfl
  | output mem clk daddr =>
    obtain rfl : output p mem clk daddr s = t := Option.some.inj hs
    exact output_keeps (fun h ht => h.congr (congrArg Prod.fst ht) (congrArg (·.2.1) ht)) id
      (fun ip _ h => h.search ip) (fun _ hmem _ _ h => h.putOf hmem rfl rfl)
      (fun _ hmem h => h.putOf hmem rfl rfl) h
  | timer clk =>
    obtain rfl : timerQueueSignal clk s = t := Option.some.inj hs
    exact h.congr rfl rfl
  | thread mem clk =>
    rcases runTask_cases hs with ⟨-, rfl⟩ | ⟨τ, hhead, -, hh⟩
    · exact h
    · have hpop : Ordered { s with taskQ := s.taskQ.tail } := h.congr rfl rfl
      exact (ordered_writes hpop (hok τ hhead)).handle (.refl hpop) hh

theorem initModule (hp : p.AddressesDiffer) (h : initModule p clk = some s) : Ordered s := by
  have hroutes : s.routes = initialRoutes p := by
    rw [initModule_eq] at h
    rw [← Option.some.inj h]
    rfl
  refine ⟨.initModule h, ?_⟩
  have hdev : ∀ {l : List Route}, (l.map Route.ip).Pairwise (· < ·) → p.myIp ∉ l.map Route.ip →
      ((if p.myIp = 0 then l else placeRoute (devEntry p) l).map Route.ip).Pairwise (· < ·) :=
        fun h hmy => by
    split
    · exact h
    · exact ascending_placeRoute h hmy
  have hlo : ((placeRoute (loopbackEntry p) []).map Route.ip).Pairwise (· < ·) :=
    ascending_placeRoute .nil List.not_mem_nil
  have hmemlo : ∀ {ip}, ip ≠ loopbackIp p → ip ∉ (placeRoute (loopbackEntry p) []).map Route.ip :=
    fun hne => by
    rw [mem_map_placeRoute]
    exact fun h => h.elim hne List.not_mem_nil
  obtain ⟨hmy, hsubnet⟩ := hp
  rw [hroutes, initialRoutes]
  cases hlocal : p.localSubnet with
  | none => exact hdev hlo (hmemlo hmy)
  | some q =>
    obtain ⟨ip, netmask⟩ := q
    by_cases hip : ip = 0
    · simpa only [hip, if_true] using hdev hlo (hmemlo hmy)
    · obtain ⟨hne, hne'⟩ := hsubnet _ hlocal hip
      have hmem : p.myIp ∉ (placeRoute (subnetEntry ip netmask)
          (placeRoute (loopbackEntry p) [])).map Route.ip := by
        rw [mem_map_placeRoute]
        exact fun h => h.elim hne'.symm (hmemlo hmy)
      simpa only [hip, if_false] using hdev (ascending_placeRoute hlo (hmemlo hne)) hmem

end Ordered

/-! ## Runs -/

/-- When start-up makes entries for different addresses, and no request for the address of a
subnet is answered, there is never more than one entry for an address. -/
theorem one_route {events : List Event} (hp : p.AddressesDiffer) (h₀ : initModule p clk = some s)
    (hok : AllSteps (step p) (NextTask (Task.NotForSubnet p)) events s) :
    Along (step p) OneRoute events s :=
  (along_of_step (fun _ _ _ h hok hs => h.step hok hs) (Ordered.initModule hp h₀) hok).mono
    fun _ h => h.oneRoute

/-- A node in front of 10.0.0.0/24, for which `local_subnet` gives the address 10.0.0.1. -/
def subnetNode : Params := { plainNode with localSubnet := some (0x0A000001, 0xFFFFFF00) }

/-- A request of `via` for a route to `dstIp`. -/
def requestFrom (via dstIp rreqId : U32) : Arrival where
  srcIp := via
  dstIp := broadcastIp
  ttl := 10
  dev := 0
  msg := .rreq { metric := 0, rreqId := rreqId, dstIp := dstIp, dstSeq := 0, srcIp := via,
                 srcSeq := 1 }

/-- Node 2 asks for a route to `ip`, and asks again. -/
def requestRun (ip : U32) : List Event :=
  handled 1 (helloFrom (peer 2) 1) ++ handled 2 (requestFrom (peer 2) ip 1) ++
    handled 3 (requestFrom (peer 2) ip 2)

/-- Requests for another address of the subnet. -/
theorem one_route_requestRun : ∃ s, initModule subnetNode (clockAt 0) = some s ∧
    Along (step subnetNode) OneRoute (requestRun 0x0A000005) s := by
  have hok : (initModule subnetNode (clockAt 0)).any (fun s => decide (AllSteps (step subnetNode)
      (NextTask (Task.NotForSubnet subnetNode)) (requestRun 0x0A000005) s)) = true := by
    decide +kernel
  obtain ⟨s, hs, hok⟩ := (Option.any_eq_true _ _).1 hok
  refine ⟨s, hs, one_route ⟨by decide, ?_⟩ hs (of_decide_eq_true hok)⟩
  rintro q hq -
  rw [← Option.some.inj hq]
  decide

/-- Two requests for the address that stands for the subnet leave three entries for it. -/
theorem not_one_route_requestRun :
    ¬∀ (p : Params) (clk : Clock) (events : List Event) (s : Router), initModule p clk = some s →
      Along (step p) OneRoute events s := by
  intro h
  have hrun : (runFrom subnetNode (clockAt 0) (requestRun 0x0A000001)).any (fun t =>
      (t.routes.map Route.ip).count 0x0A000001 == 3) = true := by decide +kernel
  obtain ⟨s, t, hs, ht, hq⟩ := exists_of_runFrom _ hrun
  have hone : OneRoute t := Along.reached
    (by rw [List.append_nil]; exact h subnetNode _ (requestRun 0x0A000001) s hs) ht
  have hle := List.nodup_iff_count_le_one.1 hone 0x0A000001
  rw [eq_of_beq hq] at hle
  exact absurd hle (by decide)

end MobileCloudCaching.Aodv
