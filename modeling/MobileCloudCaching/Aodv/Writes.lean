import MobileCloudCaching.Aodv.Frames

/-!
# What the handlers write to the tables

`HandlerWrites` lists the writes to the route table and to the kernel's routes that the handler of a
task may make, each with the tests that lead to it.  `P` is kept as long as the handler goes on, and
`Q` holds at its end (`HandlerWrites.handle`); the last write of a handler need only lead to `Q`.
-/

namespace MobileCloudCaching.Aodv

open Octets

variable {p : Params} {mem : Mem} {clk : Clock} {s t : Router}

/-- The route table, the address of the next entry and the kernel's routes. -/
def tables (s : Router) : List Route × ℕ × List KernelRoute := (s.routes, s.nextPtr, s.kernelRoutes)

/-- The state after `create_aodv_route`. -/
def created (ip : U32) (s : Router) : Router :=
  { s with
    nextPtr := s.nextPtr + 1
    routes := if ip = 0 then s.routes else placeRoute (newRoute s.nextPtr ip) s.routes }

theorem createAodvRoute_created {ok : Bool} {ip : U32} {r : Route}
    (h : createAodvRoute ok ip s = some (some r, t)) : r = newRoute s.nextPtr ip ∧
    t = created ip s := by
  obtain ⟨-, rfl, ht⟩ := createAodvRoute_some h
  exact ⟨rfl, ht⟩

theorem placeRoute_perm (r : Route) (l : List Route) : (placeRoute r l).Perm (r :: l) := by
  rw [placeRoute]
  refine List.perm_middle.trans (.cons r ?_)
  rw [List.takeWhile_append_dropWhile]

theorem mem_placeRoute {r x : Route} {l : List Route} : x ∈ placeRoute r l ↔ x = r ∨ x ∈ l :=
  (placeRoute_perm r l).mem_iff.trans List.mem_cons

theorem mem_created {ip : U32} {x : Route} (h : x ∈ (created ip s).routes) :
    x = newRoute s.nextPtr ip ∨ x ∈ s.routes := by
  unfold created at h
  dsimp only at h
  split at h
  · exact .inr h
  · exact mem_placeRoute.1 h

theorem mem_putRoute {r x : Route} (h : x ∈ (putRoute r s).routes) :
    (x = r ∧ ∃ y ∈ s.routes, y.ptr = r.ptr) ∨ x ∈ s.routes ∧ x.ptr ≠ r.ptr := by
  obtain ⟨y, hy, rfl⟩ := List.mem_map.1 h
  by_cases hp : y.ptr = r.ptr
  · rw [if_pos hp]
    exact .inl ⟨rfl, y, hy, hp⟩
  · rw [if_neg hp]
    exact .inr ⟨hy, hp⟩

theorem putRoute_putRoute {r r' : Route} (h : r'.ptr = r.ptr) :
    putRoute r' (putRoute r s) = putRoute r' s := by
  unfold putRoute
  simp only [List.map_map, Router.mk.injEq, List.map_inj_left, Function.comp_apply, and_true]
  intro x _
  by_cases hx : x.ptr = r.ptr
  · simp [hx, h]
  · simp [hx]

/-! ## What start-up leaves -/

theorem initialRoutes_sublist : ∃ subnet ip netmask, subnet = subnetEntry ip netmask ∧
    ∃ l, (initialRoutes p).Perm l ∧ l.Sublist [devEntry p, subnet, loopbackEntry p] := by
  have hdev : ∀ {l l' : List Route}, l.Perm l' →
      ∃ l'', (if p.myIp = 0 then l else placeRoute (devEntry p) l).Perm l'' ∧
        l''.Sublist (devEntry p :: l') := fun {l l'} h => by
    split
    · exact ⟨l', h, List.sublist_cons_self _ _⟩
    · exact ⟨_, (placeRoute_perm _ _).trans (h.cons _), List.Sublist.refl _⟩
  have hlo : (placeRoute (loopbackEntry p) []).Perm [loopbackEntry p] := placeRoute_perm _ _
  unfold initialRoutes
  cases p.localSubnet with
  | none =>
    obtain ⟨l, hl, hsub⟩ := hdev hlo
    exact ⟨_, 0, 0, rfl, l, hl, hsub.trans ((List.sublist_cons_self _ _).cons_cons _)⟩
  | some q =>
    obtain ⟨ip, netmask⟩ := q
    by_cases hip : ip = 0
    · obtain ⟨l, hl, hsub⟩ := hdev hlo
      refine ⟨_, ip, netmask, rfl, l, ?_, hsub.trans ((List.sublist_cons_self _ _).cons_cons _)⟩
      simpa only [hip, if_true] using hl
    · obtain ⟨l, hl, hsub⟩ := hdev ((placeRoute_perm (subnetEntry ip netmask) _).trans (hlo.cons _))
      refine ⟨_, ip, netmask, rfl, l, ?_, hsub⟩
      simpa only [hip, if_false] using hl

theorem mem_initialRoutes {r : Route} (h : r ∈ initialRoutes p) :
    r.ptr < 3 ∧ r.selfRoute = true ∧ r.routeValid = true := by
  obtain ⟨_, ip, netmask, rfl, l, hl, hsub⟩ := initialRoutes_sublist (p := p)
  have hmem := hsub.subset (hl.mem_iff.1 h)
  simp only [List.mem_cons, List.not_mem_nil, or_false] at hmem
  rcases hmem with rfl | rfl | rfl
  · exact ⟨by simp [devEntry, selfEntry], rfl, rfl⟩
  · exact ⟨by simp [subnetEntry, selfEntry], rfl, rfl⟩
  · exact ⟨by simp [loopbackEntry, selfEntry], rfl, rfl⟩

theorem nodup_initialRoutes : ((initialRoutes p).map Route.ptr).Nodup := by
  obtain ⟨_, ip, netmask, rfl, l, hl, hsub⟩ := initialRoutes_sublist (p := p)
  refine (hl.map _).nodup_iff.2 (.sublist (hsub.map _) ?_)
  simp [devEntry, subnetEntry, loopbackEntry, selfEntry]

/-! ## Addresses of entries -/

/-- No two entries of the table have the same address, and the next one is new. -/
structure Distinct (s : Router) : Prop where
  nodup : (s.routes.map Route.ptr).Nodup
  lt : ∀ r ∈ s.routes, r.ptr < s.nextPtr

namespace Distinct

theorem of_map (h : Distinct s) (hmap : t.routes.map Route.ptr = s.routes.map Route.ptr)
    (hnext : t.nextPtr = s.nextPtr) : Distinct t where
  nodup := hmap ▸ h.nodup
  lt r hr := by
    have hmem : r.ptr ∈ s.routes.map Route.ptr := hmap ▸ List.mem_map_of_mem hr
    obtain ⟨x, hx, he⟩ := List.mem_map.1 hmem
    rw [hnext, ← he]
    exact h.lt x hx

theorem congr (h : Distinct s) (hroutes : t.routes = s.routes) (hnext : t.nextPtr = s.nextPtr) :
    Distinct t := h.of_map (by rw [hroutes]) hnext

theorem eq_of_ptr (h : Distinct s) {x y : Route} (hx : x ∈ s.routes) (hy : y ∈ s.routes)
    (he : x.ptr = y.ptr) : x = y := List.inj_on_of_nodup_map h.nodup hx hy he

theorem search (h : Distinct s) (ip : U32) : Distinct (searched clk ip s) := by
  refine h.of_map (map_eq_of_forall₂ marked_searched fun x y hxy => ?_) rfl
  rcases hxy with rfl | rfl
  · rfl
  · exact Route.ptr_refresh

theorem put (h : Distinct s) (r : Route) : Distinct (putRoute r s) := by
  refine h.of_map ?_ rfl
  rw [putRoute, List.map_map]
  refine List.map_congr_left fun x _ => ?_
  rw [Function.comp_apply]
  split
  · exact (‹x.ptr = r.ptr›).symm
  · rfl

theorem created (h : Distinct s) (ip : U32) : Distinct (created ip s) := by
  refine ⟨?_, fun r hr => ?_⟩
  · unfold Aodv.created
    dsimp only
    split
    · exact h.nodup
    · refine ((placeRoute_perm _ _).map _).nodup_iff.2 (List.nodup_cons.2 ⟨fun hmem => ?_, h.nodup⟩)
      obtain ⟨x, hx, he⟩ := List.mem_map.1 hmem
      have hlt := h.lt x hx
      rw [he] at hlt
      exact absurd hlt (lt_irrefl s.nextPtr)
  · rcases mem_created hr with rfl | hr
    · exact Nat.lt_succ_self _
    · exact Nat.lt_succ_of_lt (h.lt r hr)

theorem filter (h : Distinct s) {keep : Route → Bool} (hroutes : t.routes = s.routes.filter keep)
    (hnext : t.nextPtr = s.nextPtr) : Distinct t where
  nodup := by
    rw [hroutes]
    exact h.nodup.sublist (List.filter_sublist.map _)
  lt r hr := by
    rw [hroutes] at hr
    exact hnext ▸ h.lt r (List.mem_filter.1 hr).1

theorem initModule (h : initModule p clk = some s) : Distinct s := by
  rw [initModule_eq] at h
  rw [← Option.some.inj h]
  exact ⟨nodup_initialRoutes, fun r hr => (mem_initialRoutes hr).1⟩

end Distinct

/-! ## The tasks that write routes -/

/-- The call of `update_aodv_route` that a task makes. -/
def Task.update (clk : Clock) (τ : Task) (s : Router) : Option Update :=
  match τ.type with
  | .packet (.rreq m) =>
    if τ.ttl ≤ 1 ∨ (findFloodId clk m.srcIp m.rreqId s.floodIdQueue).isSome then none
    else some (m.update τ)
  | .packet (.rrep m) => if m.srcIp = m.dstIp then none else some (m.update τ)
  | _ => none

/-- The hello in a task, if it makes `update_aodv_neigh_route` write a route: its sender is
a neighbour or can be entered as one. -/
def Task.heard (mem : Mem) (τ : Task) (s : Router) : Option Rrep :=
  match τ.type with
  | .packet (.rrep m) =>
    if m.srcIp = m.dstIp ∧ (match findAodvNeigh m.dstIp s with
      | some n => n.validLink
      | none => (createAodvNeigh (mem .neigh 0) m.dstIp τ.dev s).isSome) = true then some m
    else none
  | _ => none

/-- Neither a route error nor a time-out makes an update. -/
theorem not_error_of_update {u : Update} {τ : Task} (h : τ.update clk s = some u) :
    (¬∃ m, τ.type = .packet (.rerr m)) ∧ τ.type ≠ .neighbor := by
  constructor
  · rintro ⟨m, hm⟩
    simp [Task.update, hm] at h
  · intro hm
    simp [Task.update, hm] at h

theorem Task.heard_type {m : Rrep} {τ : Task} (h : τ.heard mem s = some m) :
    τ.type = .packet (.rrep m) ∧ m.srcIp = m.dstIp := by
  unfold Task.heard at h
  split at h
  · obtain ⟨⟨hm, -⟩, he⟩ := Option.ite_none_right_eq_some.1 h
    obtain rfl := Option.some.inj he
    exact ⟨‹_›, hm⟩
  · cases h

theorem not_error_of_heard {m : Rrep} {τ : Task} (h : τ.heard mem s = some m) :
    ¬∃ m, τ.type = .packet (.rerr m) := by
  rintro ⟨m, hm⟩
  simp [Task.heard, hm] at h

theorem not_error_of_type {type : TaskType} {τ : Task} (h : τ.type = type)
    (hne : ∀ m, type ≠ .packet (.rerr m)) : ¬∃ m, τ.type = .packet (.rerr m) := by
  rintro ⟨m, hm⟩
  exact hne m (h.symm.trans hm)

/-- The table after the walk of `gen_rerr`. -/
def Broken (clk : Clock) (brkDstIp : U32) : List Route → List Route → Prop :=
  List.Forall₂ fun x y => y = x ∨
    x.nextHop = brkDstIp ∧ x.selfRoute = false ∧ x.routeValid = true ∧ y = x.expire clk

theorem Broken.map_ptr {ip : U32} {l l' : List Route} (h : Broken clk ip l l') :
    l'.map Route.ptr = l.map Route.ptr := by
  refine map_eq_of_forall₂ h fun x y hxy => ?_
  rcases hxy with rfl | ⟨-, -, -, rfl⟩ <;> rfl

/-- What `reply_to_rreq` has found when it makes an entry for `ip`: on a gateway nothing,
on another node the entry of a subnet. -/
def MakesGatewayRoute (p : Params) (clk : Clock) (ip : U32) (s : Router) : Prop :=
  aodvSubnetTest p ip = false ∧
    match foundRoute clk ip s with
    | none => p.gateway = true
    | some r => p.gateway = false ∧ r.netmask ≠ broadcastIp

/-- Each write that the handler of `τ` may make, from the state `s` on, keeps `P` or leads to
`Q`. -/
structure HandlerWrites (p : Params) (mem : Mem) (clk : Clock) (τ : Task) (s : Router)
    (P Q : Router → Prop) : Prop where
  congr : ∀ {s₁ s₂}, P s₁ → tables s₂ = tables s₁ → P s₂
  congrEnd : ∀ {s₁ s₂}, Q s₁ → tables s₂ = tables s₁ → Q s₂
  done : ∀ {s₁}, P s₁ → Q s₁
  search : ∀ ip {s₁}, P s₁ → P (searched clk ip s₁)
  /-- `update_aodv_route`, for an entry that it has found -/
  update : ∀ {u r s₁}, τ.update clk s = some u → u.accepted clk s = true →
    foundRoute clk u.ip s = some r → r ∈ s₁.routes → P s₁ → P (installRoute clk u r s₁)
  /-- `update_aodv_route`, for a new entry -/
  updateNew : ∀ {u s₁}, τ.update clk s = some u → u.accepted clk s = true →
    foundRoute clk u.ip s = none → foundRoute clk u.ip s₁ = none → P s₁ →
    P (installRoute clk u (newRoute s₁.nextPtr u.ip) (created u.ip s₁))
  /-- `update_aodv_neigh_route`, for an entry that it has found -/
  hello : ∀ {m n r s₁}, τ.heard mem s = some m → n.ip = m.dstIp →
  foundRoute clk m.dstIp s = some r →
    r ∈ s₁.routes → P s₁ → Q (learnNeigh clk n m r s₁)
  /-- `update_aodv_neigh_route`, for a new entry -/
  helloNew : ∀ {m n s₁}, τ.heard mem s = some m → n.ip = m.dstIp → foundRoute clk m.dstIp s = none →
    foundRoute clk m.dstIp s₁ = none → P s₁ →
    Q (learnNeigh clk n m (newRoute s₁.nextPtr m.dstIp) (created m.dstIp s₁))
  /-- `reply_to_rreq` of a gateway, for an entry that it has found -/
  revive : ∀ {m r s₁}, τ.type = .packet (.rreq m) → (τ.update clk s).isSome = true →
    validAodvNeigh clk τ.srcIp s = true → p.gateway = true → aodvSubnetTest p m.dstIp = false →
    foundRoute clk m.dstIp s₁ = some r → r ∈ s₁.routes → P s₁ →
    P (putRoute { r with lifetime := clk.now + activeRouteTimeout, routeValid := true } s₁)
  /-- `reply_to_rreq` for an own address -/
  ownSeq : ∀ {m r s₁}, τ.type = .packet (.rreq m) → r ∈ s₁.routes → r.selfRoute = true →
    seqLessOrEqual r.seq m.dstSeq = true → P s₁ → P (putRoute { r with seq := m.dstSeq + 1 } s₁)
  /-- `reply_to_rreq`, for a new entry -/
  gateway : ∀ {m r s₁}, τ.type = .packet (.rreq m) → (τ.update clk s).isSome = true →
    validAodvNeigh clk τ.srcIp s = true → MakesGatewayRoute p clk m.dstIp s₁ →
    r ∈ (created m.dstIp s₁).routes → P s₁ →
    P (putRoute (gatewayRoute clk m.dstIp r (newRoute s₁.nextPtr m.dstIp)) (created m.dstIp s₁))
  /-- `recv_rerr`, one destination -/
  rerr : ∀ {m d r s₁}, τ.type = .packet (.rerr m) → d ∈ m.dsts.take m.dstCount.toNat →
    foundRoute clk d.ip s₁ = some r → r ∈ s₁.routes → r.selfRoute = false → r.nextHop = τ.srcIp →
    P s₁ → ((r.routeValid = true → ∃ i < m.dstCount.toNat, mem .rerrRoute i = false) →
        P (putRoute { r with seq := d.seq } s₁)) ∧
      (r.routeValid = true → P (putRoute (Route.expire clk { r with seq := d.seq }) s₁))
  /-- `flush_aodv_route_table`, an entry that is marked -/
  flush : ∀ {r s₁}, τ.type = .cleanup ∨ τ.type = .routeCleanup → r ∈ s.routes →
    timeBefore r.lifetime clk.now = true → r.selfRoute = false → r.routeValid = true → P s₁ →
    P (putRoute (r.expire clk) s₁)
  /-- `flush_aodv_route_table`, an entry that is removed -/
  flushRemove : ∀ {r s₁}, τ.type = .cleanup ∨ τ.type = .routeCleanup → r ∈ s.routes →
    timeBefore r.lifetime clk.now = true → r.selfRoute = false → r.routeValid = false → P s₁ →
    P { deleteKernelRouteEntry r.ip r.netmask s₁ with
      routes := s₁.routes.filter fun x => x.ptr != r.ptr }
  /-- `delete_aodv_neigh`, when the entry is still valid after `gen_rerr` -/
  drop : ∀ {r x l s₁}, τ.type = .neighbor → (s.neighs.any fun n => n.ip == τ.srcIp) = true →
    foundRoute clk τ.srcIp s = some r → r.nextHop = r.ip → r ∈ s₁.routes → P s₁ →
    Broken clk r.ip s₁.routes l → x ∈ l → x.ptr = r.ptr → x.routeValid = true →
    Q (putRoute (x.expire clk) { deleteKernelRouteEntry r.ip r.netmask s₁ with routes := l })
  /-- `delete_aodv_neigh`, when it is not -/
  dropRemove : ∀ {r x l s₁}, τ.type = .neighbor → (s.neighs.any fun n => n.ip == τ.srcIp) = true →
    foundRoute clk τ.srcIp s = some r → r.nextHop = r.ip → r ∈ s₁.routes → P s₁ →
    Broken clk r.ip s₁.routes l → x ∈ l → x.ptr = r.ptr → x.routeValid = false →
    Q { deleteKernelRouteEntry r.ip r.netmask s₁ with routes := l.filter fun y => y.ptr != x.ptr }
  /-- `resend_rreq` -/
  number : ∀ {r s₁}, τ.type = .resendRreq → foundRoute clk τ.srcIp s = some r → r ∈ s₁.routes →
    P s₁ → Q (putRoute r.numbered s₁)

theorem broken_breakRoutes (mem : Mem) (clk : Clock) (brkDstIp : U32) (l : List Route)
    (bad : List AodvDst) :
    Broken clk brkDstIp l (breakRoutes mem clk brkDstIp l bad).2.1 := by
  induction l generalizing bad with
  | nil => exact .nil
  | cons r l ih =>
    rw [breakRoutes]
    split
    · rename_i hr
      split
      · refine .cons ?_ (ih _)
        split
        · exact .inr ⟨hr.1, hr.2, ‹_›, rfl⟩
        · exact .inl rfl
      · exact List.forall₂_same.2 fun _ _ => .inl rfl
    · exact .cons (.inl rfl) (ih _)

theorem tables_genRerr (mem : Mem) (clk : Clock) (brkDstIp : U32)
    (s : Router) : tables (genRerr mem clk brkDstIp s) =
    tables { s with routes := (breakRoutes mem clk brkDstIp s.routes []).2.1 } := by
  unfold genRerr sendRerr localBroadcast
  dsimp only
  split_ifs <;> rfl

/-- A request numbers the entry of its source. -/
theorem broadcastRreq_keeps {P Q : Router → Prop}
    (hcongr : ∀ {s₁ s₂}, Q s₁ → tables s₂ = tables s₁ → Q s₂) (hdone : ∀ {s₁}, P s₁ → Q s₁)
    (hsearch : ∀ ip {s₁}, P s₁ → P (searched clk ip s₁)) {srcIp dstIp : U32} {n : ℕ}
    (hnumber : ∀ {r s₁}, foundRoute clk srcIp s = some r → r ∈ s₁.routes → P s₁ →
      Q (putRoute r.numbered s₁)) (hs : P s) : Q (broadcastRreq mem clk srcIp dstIp n s) := by
  cases hr : foundRoute clk srcIp s with
  | none =>
    rw [broadcastRreq_of_none hr]
    exact hdone (hsearch _ (hsearch _ hs))
  | some r =>
    have hmem : r ∈ (searched clk srcIp (searched clk dstIp s)).routes :=
      mem_searched (by rwa [foundRoute_searched])
    have hput := hnumber hr hmem (hsearch _ (hsearch _ hs))
    rw [broadcastRreq_of_some hr]
    split
    · refine hcongr hput ?_
      unfold localBroadcast insertRreqTimer
      split_ifs <;> rfl
    · exact hput

/-! ## The handlers -/

/-- A request that has come too far or has been seen before has no effect. -/
theorem recvRreq_ignored {τ : Task} {m : Rreq}
    (hu : τ.ttl ≤ 1 ∨ (findFloodId clk m.srcIp m.rreqId s.floodIdQueue).isSome)
    (h : recvRreq p mem clk τ m s = some t) : t = s := by
  rw [recvRreq] at h
  rcases hu with httl | hid
  · rw [if_pos httl] at h
    exact (Option.some.inj h).symm
  · split at h
    · exact (Option.some.inj h).symm
    · rw [checkRreq, if_pos hid] at h
      exact (Option.some.inj h).symm

namespace HandlerWrites

variable {τ : Task} {P Q : Router → Prop} {s₁ : Router}

theorem sendMessage (hP : HandlerWrites p mem clk τ s P Q) (dst : U32) (ttl : Byte) (msg : Message)
    (hs : P s₁) : P (sendMessage p clk dst ttl msg s₁) := by
  unfold Aodv.sendMessage
  simp only [findAodvRoute_eq]
  split
  · exact hs
  · split
    · exact hP.search _ hs
    · split
      · exact hP.congr (hP.search dst hs) rfl
      · exact hP.search _ hs

theorem updateAodvRoute (hP : HandlerWrites p mem clk τ s P Q) {ok : Bool} {u : Update}
    (hu : τ.update clk s = some u) (hacc : u.accepted clk s₁ = u.accepted clk s)
    (hfound : foundRoute clk u.ip s₁ = foundRoute clk u.ip s) (hs : P s₁)
    (h : updateAodvRoute ok clk u s₁ = some t) : P t := by
  rcases updateAodvRoute_cases h with ⟨-, rfl⟩ | ⟨ha, ⟨r, hr, rfl⟩ | ⟨hr, r, s₂, hc, rfl⟩⟩
  · exact hP.search _ hs
  · exact hP.update hu (hacc ▸ ha) (hfound ▸ hr) (mem_searched hr) (hP.search _ hs)
  · obtain ⟨rfl, rfl⟩ := createAodvRoute_created hc
    exact hP.updateNew hu (hacc ▸ ha) (hfound ▸ hr) (by rwa [foundRoute_searched]) (hP.search _ hs)

theorem genRrep (hP : HandlerWrites p mem clk τ s P Q) {srcIp dstIp : U32} (hs : P s₁)
    (h : genRrep p mem clk srcIp dstIp s₁ = some t) : P t := by
  unfold Aodv.genRrep at h
  simp only [findAodvRoute_eq] at h
  split at h
  · exact Option.some.inj h ▸ hP.search _ hs
  · split at h
    · exact Option.some.inj h ▸ hP.search _ (hP.search _ hs)
    · obtain ⟨r, -, h⟩ := Option.bind_eq_some_iff.1 h
      rw [← Option.some.inj h, sendRrep]
      split
      · exact hP.sendMessage _ _ _ (hP.search _ (hP.search _ hs))
      · exact hP.search _ (hP.search _ hs)

theorem replyToRreq (hP : HandlerWrites p mem clk τ s P Q) {m : Rreq} {b : Bool}
    (hτ : τ.type = .packet (.rreq m)) (hupdate : (τ.update clk s).isSome = true)
    (hvalid : validAodvNeigh clk τ.srcIp s = true) (hs : P s₁)
    (h : replyToRreq p mem clk m s₁ = some (b, t)) : P t := by
  have hcreate : MakesGatewayRoute p clk m.dstIp (searched clk m.dstIp s₁) →
      (createGatewayRoute (mem .route 1) clk m.dstIp (searched clk m.dstIp s₁)).map
        (fun s => (true, s)) = some (b, t) → P t := fun hmakes h => by
    obtain ⟨s₂, hc, he⟩ := Option.map_eq_some_iff.1 h
    rw [← (Prod.mk.inj he).2]
    obtain ⟨⟨r, s₃⟩, hc, h⟩ := Option.bind_eq_some_iff.1 hc
    cases r with
    | none => cases h
    | some r =>
      obtain ⟨r₀, hr₀, h⟩ := Option.bind_eq_some_iff.1 h
      obtain ⟨rfl, rfl⟩ := createAodvRoute_created hc
      rw [← Option.some.inj h]
      exact hP.gateway hτ hupdate hvalid hmakes (List.mem_of_find?_eq_some hr₀) (hP.search _ hs)
  have hsame : ∀ {s₂ : Router} {b' : Bool}, some (b', s₂) = some (b, t) → P s₂ → P t :=
    fun h hs => by
    rwa [← (Prod.mk.inj (Option.some.inj h)).2]
  have hfound : ∀ {r : Route}, foundRoute clk m.dstIp s₁ = some r →
      foundRoute clk m.dstIp (searched clk m.dstIp s₁) = some r := fun h => by
        rwa [foundRoute_searched]
  unfold Aodv.replyToRreq at h
  simp only [findAodvRoute_eq] at h
  split at h
  · have houtside : aodvSubnetTest p m.dstIp = false := by
      simpa using ‹(!aodvSubnetTest p m.dstIp) = true›
    split at h
    · split at h
      · refine hcreate ⟨houtside, ?_⟩ h
        rwa [foundRoute_searched, ‹foundRoute clk m.dstIp s₁ = none›]
      · exact hsame h (hP.revive hτ hupdate hvalid ‹_› houtside (hfound ‹_›) (mem_searched ‹_›)
          (hP.search _ hs))
    · split at h
      · exact hsame h (hP.search _ hs)
      · rename_i hgateway _ r hr
        split at h
        · refine hcreate ⟨houtside, ?_⟩ h
          rw [foundRoute_searched, hr]
          exact ⟨by simpa using hgateway, ‹_›⟩
        · exact hsame h (hP.search _ hs)
  · split at h
    · exact hsame h (hP.search _ hs)
    · split at h
      · refine hsame h ?_
        split
        · exact hP.ownSeq hτ (mem_searched ‹_›) ‹_› ‹_› (hP.search _ hs)
        · exact hP.search _ hs
      · exact hsame h (hP.search _ hs)

theorem recvRreq (hP : HandlerWrites p mem clk τ s P Q) {m : Rreq} (hτ : τ.type = .packet (.rreq m))
    (hs : P s) (h : recvRreq p mem clk τ m s = some t) : P t := by
  by_cases hu : τ.ttl ≤ 1 ∨ (findFloodId clk m.srcIp m.rreqId s.floodIdQueue).isSome
  · rwa [recvRreq_ignored hu h]
  have hupdate : τ.update clk s = some (m.update τ) := by
    rw [Task.update, hτ]
    exact if_neg hu
  rcases recvRreq_cases h with rfl | rfl | ⟨hvalid, h⟩
  · exact hs
  · exact hP.search _ hs
  · obtain ⟨s₁, h₁, h⟩ := Option.bind_eq_some_iff.1 h
    have hs₁ : P s₁ := hP.updateAodvRoute hupdate (by simp [Update.accepted]; rfl)
      (foundRoute_searched _) (hP.search _ hs) h₁
    obtain ⟨⟨b, s₂⟩, h₂, h⟩ := Option.bind_eq_some_iff.1 h
    have hs₂ : P s₂ := by
      refine hP.replyToRreq hτ (by rw [hupdate]; rfl) hvalid ?_ h₂
      split
      · exact hP.congr hs₁ rfl
      · exact hs₁
    cases b with
    | true => exact hP.genRrep hs₂ h
    | false =>
      rw [← Option.some.inj h, localBroadcast]
      split
      · exact hs₂
      · exact hP.congr hs₂ rfl

theorem heardHello (hP : HandlerWrites p mem clk τ s P Q) {m : Rrep} {n : Neigh}
    (hn : n.ip = m.dstIp) (hτ : n.validLink = true → τ.heard mem s = some m) (hs : P s₁)
    (hroutes : s₁.routes = s.routes) (h : heardHello mem clk m n s₁ = some t) : Q t := by
  rw [Aodv.heardHello] at h
  generalize hs₂ : putNeigh _ _ = s₂ at h
  have htables : tables s₂ = tables s₁ := by
    rw [← hs₂]
    cases mem .task 0 <;> rfl
  have hP₂ : P s₂ := hP.congr hs htables
  have hfound : foundRoute clk n.ip s₂ = foundRoute clk m.dstIp s := by
    rw [foundRoute_congr (congrArg Prod.fst htables), hn, foundRoute_congr hroutes]
  unfold updateAodvNeigh at h
  split at h
  · rename_i hlink
    have hheard := hτ hlink
    unfold updateAodvNeighRoute at h
    simp only [findAodvRoute_eq] at h
    split at h
    · rename_i r hr
      rw [← Option.some.inj h]
      exact hP.hello hheard hn (hfound ▸ hr) (mem_searched hr) (hP.search _ hP₂)
    · rename_i hr
      obtain ⟨⟨r, s₃⟩, hc, h⟩ := Option.bind_eq_some_iff.1 h
      cases r with
      | none => cases h
      | some r =>
        rw [← Option.some.inj h]
        rw [hn] at hc
        obtain ⟨rfl, rfl⟩ := createAodvRoute_created hc
        rw [hn] at hr
        exact hP.helloNew hheard hn (hfound ▸ hn ▸ hr) (by rwa [foundRoute_searched])
          (hP.search _ hP₂)
  · rw [← Option.some.inj h]
    exact hP.done hP₂

theorem recvHello (hP : HandlerWrites p mem clk τ s P Q) {m : Rrep}
    (hτ : τ.type = .packet (.rrep m)) (hm : m.srcIp = m.dstIp) (hs : P s₁)
    (hroutes : s₁.routes = s.routes) (hneighs : s₁.neighs = s.neighs)
    (h : recvHello mem clk τ m s₁ = some t) : Q t := by
  have hfind : findAodvNeigh m.dstIp s₁ = findAodvNeigh m.dstIp s := by
    rw [findAodvNeigh, findAodvNeigh, hneighs]
  rcases recvHello_cases h with ⟨-, -, rfl⟩ | ⟨n, s₂, hn, hh, ⟨hf, rfl⟩ | ⟨hf, hc⟩⟩
  · exact hP.done hs
  · rw [hfind] at hf
    exact hP.heardHello hn (fun hlink => by simp [Task.heard, hτ, hm, hf, hlink]) hs hroutes hh
  · have hsome : (createAodvNeigh (mem .neigh 0) m.dstIp τ.dev s).isSome = true := by
      rw [← isSome_createAodvNeigh hneighs, hc]
      rfl
    rw [hfind] at hf
    have hs₂ := (createAodvNeigh_some hc).2.2.2
    exact hP.heardHello hn (fun _ => by simp [Task.heard, hτ, hm, hf, hsome])
      (hP.congr hs (by rw [hs₂]; rfl)) (by rw [hs₂, ← hroutes]) hh

theorem forwardRrep (hP : HandlerWrites p mem clk τ s P Q) (m : Rrep) (hs : P s₁) :
    P (forwardRrep p clk m s₁) := by
  unfold Aodv.forwardRrep
  simp only [findAodvRoute_eq]
  split
  · exact hP.search _ hs
  · split
    · exact hP.search _ hs
    · exact hP.sendMessage _ _ _ (hP.search _ hs)

theorem recvRrep (hP : HandlerWrites p mem clk τ s P Q) {m : Rrep} (hτ : τ.type = .packet (.rrep m))
    (hs : P s) (h : recvRrep p mem clk τ m s = some t) : Q t := by
  rcases recvRrep_cases h with ⟨he, hhello⟩ | ⟨hne, ⟨-, rfl⟩ | ⟨-, s₁, rfl, hup⟩⟩
  · have hs' : P { s with overhead := s.overhead - 1 } := hP.congr hs rfl
    exact hP.recvHello hτ he hs' rfl rfl hhello
  · exact hP.done hs
  · have hupdate : τ.update clk s = some (m.update τ) := by simp [Task.update, hτ, hne]
    have hs' : P (deleteTimer m.dstIp .resendRreq s) := hP.congr hs rfl
    have hacc : (m.update τ).accepted clk (deleteTimer m.dstIp .resendRreq s) =
      (m.update τ).accepted clk s := Update.accepted_congr rfl rfl
    have hfound : foundRoute clk (m.update τ).ip (deleteTimer m.dstIp .resendRreq s) =
      foundRoute clk (m.update τ).ip s := foundRoute_congr rfl
    exact hP.done (hP.forwardRrep m (hP.updateAodvRoute hupdate hacc hfound hs' hup))

theorem sendRerr (hP : HandlerWrites p mem clk τ s P Q) {ok : Bool}
    {bad : List AodvDst} (hs : P s₁) :
    P (sendRerr ok bad s₁) := by
  unfold Aodv.sendRerr localBroadcast
  split
  · split
    · exact hs
    · exact hP.congr hs rfl
  · exact hs

theorem breakListed (hP : HandlerWrites p mem clk τ s P Q) {m : Rerr}
    (hτ : τ.type = .packet (.rerr m)) {l out : List AodvDst}
    (hl : ∀ d ∈ l, d ∈ m.dsts.take m.dstCount.toNat)
    (hlen : out.length + l.length ≤ m.dstCount.toNat) (hs : P s₁) :
    P (breakListed mem clk τ.srcIp l out s₁).2.2 := by
  induction l generalizing out s₁ with
  | nil => exact hs
  | cons d l ih =>
    obtain ⟨hd, hl⟩ := List.forall_mem_cons.1 hl
    rw [List.length_cons] at hlen
    rw [Aodv.breakListed]
    simp only [findAodvRoute_eq]
    split
    · exact ih hl (by omega) (hP.search _ hs)
    · rename_i r hr
      split
      · rename_i hvia
        obtain ⟨hput, hexp⟩ := hP.rerr hτ hd (by rwa [foundRoute_searched]) (mem_searched hr) hvia.1
          hvia.2 (hP.search d.ip hs)
        split
        · refine ih hl (by rw [List.length_cons]; omega) ?_
          split
          · rw [putRoute_putRoute (by rfl)]
            exact hexp ‹_›
          · rename_i hvalid
            exact hput fun h => absurd h hvalid
        · rename_i hmem
          exact hput fun _ => ⟨out.length, by omega, by simpa using hmem⟩
      · exact ih hl (by omega) (hP.search _ hs)

theorem recvRerr (hP : HandlerWrites p mem clk τ s P Q) {m : Rerr} (hτ : τ.type = .packet (.rerr m))
    (hs : P s) (h : recvRerr mem clk τ m s = some t) : P t := by
  have hloop : P (Aodv.breakListed mem clk τ.srcIp (m.dsts.take m.dstCount.toNat) [] s).2.2 :=
    hP.breakListed hτ (fun _ => id) (by rw [List.length_nil, List.length_take]; omega) hs
  unfold Aodv.recvRerr at h
  split at h
  · dsimp only at h
    split at h
    · rw [← Option.some.inj h]
      exact hP.sendRerr hloop
    · rw [← Option.some.inj h]
      exact hloop
  · cases h

theorem flushRoutes (hP : HandlerWrites p mem clk τ s P Q)
    (hτ : τ.type = .cleanup ∨ τ.type = .routeCleanup) {l : List Route}
    (hl : ∀ r ∈ l, r ∈ s.routes) (hs : P s₁) (h : flushRoutes clk l s₁ = some t) : P t := by
  induction l generalizing s₁ with
  | nil => exact Option.some.inj h ▸ hs
  | cons r l ih =>
    obtain ⟨hr, hl⟩ := List.forall_mem_cons.1 hl
    obtain ⟨s₂, h₂, h⟩ := Option.bind_eq_some_iff.1 h
    refine ih hl ?_ h
    unfold flushRoute at h₂
    split at h₂
    · rename_i hdue
      simp only [Bool.and_eq_true, Bool.not_eq_true'] at hdue
      split at h₂
      · rw [← Option.some.inj h₂]
        exact hP.flush hτ hr hdue.1 hdue.2 ‹_› hs
      · rw [removeAodvRoute_some h₂]
        exact hP.flushRemove hτ hr hdue.1 hdue.2 (by simpa using ‹¬r.routeValid = true›) hs
    · exact Option.some.inj h₂ ▸ hs

theorem deleteAodvNeigh (hP : HandlerWrites p mem clk τ s P Q) (hτ : τ.type = .neighbor) (hs : P s)
    (h : deleteAodvNeigh mem clk τ.srcIp s = some t) : Q t := by
  cases hn : s.neighs.any fun n => n.ip == τ.srcIp with
  | false =>
    rw [deleteAodvNeigh_of_not_listed hn h]
    exact hP.done hs
  | true =>
    rw [Aodv.deleteAodvNeigh, if_pos hn] at h
    simp only [findAodvRoute_eq] at h
    generalize hs₁ : deleteTimer τ.srcIp .neighbor
      { s with neighs := s.neighs.eraseP fun n => n.ip == τ.srcIp } = s₁ at h
    have htables : tables s₁ = tables s := by rw [← hs₁]; rfl
    have hfound : foundRoute clk τ.srcIp s₁ = foundRoute clk τ.srcIp s :=
      foundRoute_congr (congrArg Prod.fst htables)
    have hP₁ : P (searched clk τ.srcIp s₁) := hP.search _ (hP.congr hs htables)
    split at h
    · exact Option.some.inj h ▸ hP.done hP₁
    · rename_i r hr
      split at h
      · rename_i hnext
        obtain ⟨x, hx, h⟩ := Option.bind_eq_some_iff.1 h
        have htab := tables_genRerr mem clk r.ip
          (deleteKernelRouteEntry r.ip r.netmask (searched clk τ.srcIp s₁))
        have hbroken := broken_breakRoutes mem clk r.ip
          (searched clk τ.srcIp s₁).routes []
        generalize genRerr mem clk r.ip _ = s₂ at h hx htab
        obtain ⟨hroutes, hrest⟩ := Prod.mk.inj htab
        obtain ⟨hnextPtr, hkernel⟩ := Prod.mk.inj hrest
        have hxl := List.mem_of_find?_eq_some hx
        rw [hroutes] at hxl
        have hptr : x.ptr = r.ptr := by simpa using List.find?_some hx
        split at h
        · rw [← Option.some.inj h]
          refine hP.congrEnd (hP.drop hτ hn (hfound ▸ hr) hnext (mem_searched hr) hP₁
            hbroken hxl hptr
            ‹_›) ?_
          simp only [tables, putRoute, hroutes, hnextPtr, hkernel]
          rfl
        · rw [removeAodvRoute_some h]
          refine hP.congrEnd (hP.dropRemove hτ hn (hfound ▸ hr) hnext
            (mem_searched hr) hP₁ hbroken hxl
            hptr (by simpa using ‹¬x.routeValid = true›)) ?_
          simp only [tables, hroutes, hnextPtr, hkernel]
          rfl
      · exact Option.some.inj h ▸ hP.done hP₁

theorem resendRreq (hP : HandlerWrites p mem clk τ s P Q) (hτ : τ.type = .resendRreq) (hs : P s) :
    Q (resendRreq mem clk τ s) := by
  unfold Aodv.resendRreq
  split
  · exact hP.done (hP.congr hs rfl)
  · split
    · exact broadcastRreq_keeps hP.congrEnd hP.done hP.search (hP.number hτ) hs
    · exact hP.done hs

/-- When all these writes keep `P` and the last one leads to `Q`, `Q` holds after the handler. -/
theorem handle (hP : HandlerWrites p mem clk τ s P Q) (hs : P s)
    (h : handle p mem clk τ s = some t) : Q t := by
  unfold Aodv.handle at h
  split at h
  · exact hP.done (hP.recvRreq ‹_› hs h)
  · exact hP.recvRrep ‹_› hs h
  · exact hP.done (hP.recvRerr ‹_› hs h)
  · exact hP.done (Option.some.inj h ▸ hs)
  · have hids : tables (flushFloodIdQueue p mem clk s) = tables s := by
      unfold flushFloodIdQueue insertTimer
      split <;> rfl
    have hroutes : (flushFloodIdQueue p mem clk s).routes = s.routes := congrArg Prod.fst hids
    rw [flushAodvRouteTable, hroutes] at h
    exact hP.done (hP.flushRoutes (.inl ‹_›) (fun _ => id) (hP.congr hs hids) h)
  · unfold sendHello at h
    split at h
    · obtain ⟨r, -, h⟩ := Option.bind_eq_some_iff.1 h
      rw [← Option.some.inj h]
      refine hP.done (hP.congr hs ?_)
      unfold insertTimer localBroadcast
      split_ifs <;> rfl
    · exact hP.done (Option.some.inj h ▸ hs)
  · exact hP.deleteAodvNeigh ‹_› hs h
  · exact hP.done (hP.flushRoutes (.inr ‹_›) (fun _ => id) hs h)
  · rw [← Option.some.inj h]
    exact hP.resendRreq ‹_› hs

end HandlerWrites

/-! ## Outgoing packets -/

/-- A packet that goes out renews the lifetime of its route or starts a request. -/
theorem output_keeps {P Q : Router → Prop} (hcongr : ∀ {s₁ s₂}, Q s₁ → tables s₂ = tables s₁ → Q s₂)
    (hdone : ∀ {s₁}, P s₁ → Q s₁) (hsearch : ∀ ip {s₁}, P s₁ → P (searched clk ip s₁)) {daddr : U32}
    (huse : ∀ {r s₁}, foundRoute clk daddr s = some r → r ∈ s₁.routes → r.routeValid = true →
      r.selfRoute = false → P s₁ →
      Q (putRoute { r with lifetime := clk.now + activeRouteTimeout } s₁))
    (hnumber : ∀ {r s₁}, foundRoute clk p.myIp s = some r → r ∈ s₁.routes → P s₁ →
      Q (putRoute r.numbered s₁)) (hs : P s) : Q (output p mem clk daddr s) := by
  cases hu : unrouted p clk daddr s with
  | false =>
    rcases output_of_routed mem hu with h | h | ⟨r, hr, hv, hself, h⟩
    · rw [h]
      exact hdone hs
    · exact h ▸ hdone (hsearch _ hs)
    · exact h ▸ huse hr (mem_searched hr) hv hself (hsearch _ hs)
  | true =>
    have hgen : Q (genRreq mem clk p.myIp daddr (searched clk daddr s)) := by
      unfold genRreq
      split
      · exact hdone (hsearch _ hs)
      · split
        · refine broadcastRreq_keeps hcongr hdone hsearch (fun hr => hnumber ?_) (hsearch _ hs)
          rwa [foundRoute_searched] at hr
        · exact hdone (hsearch _ hs)
    rw [output_of_unrouted hu]
    exact hcongr hgen rfl

/-! ## Addresses of entries stay different -/

namespace Distinct

theorem broken (h : Distinct s) {ip : U32} (hl : Broken clk ip s.routes t.routes)
    (hnext : t.nextPtr = s.nextPtr) :
    Distinct t := h.of_map hl.map_ptr hnext

theorem writes {τ : Task} : HandlerWrites p mem clk τ s Distinct Distinct := by
  constructor
  case congr | congrEnd => exact fun hs ht => hs.congr (congrArg Prod.fst ht) (congrArg (·.2.1) ht)
  case done => exact id
  case search => exact fun ip _ hs => hs.search ip
  case update => exact fun {u r _} _ _ _ _ hs => (hs.put (u.route clk r)).congr rfl rfl
  case updateNew =>
    exact fun {u s₁} _ _ _ _ hs =>
      ((hs.created u.ip).put (u.route clk (newRoute s₁.nextPtr u.ip))).congr rfl rfl
  case hello => exact fun {m n r _} _ _ _ _ hs => (hs.put (n.route clk m r)).congr rfl rfl
  case helloNew =>
    exact fun {m n s₁} _ _ _ _ hs =>
      ((hs.created m.dstIp).put (n.route clk m (newRoute s₁.nextPtr m.dstIp))).congr rfl rfl
  case revive => exact fun _ _ _ _ _ _ _ hs => hs.put _
  case ownSeq => exact fun _ _ _ _ hs => hs.put _
  case gateway => exact fun {m _ _} _ _ _ _ _ hs => (hs.created m.dstIp).put _
  case rerr => exact fun _ _ _ _ _ _ hs => ⟨fun _ => hs.put _, fun _ => hs.put _⟩
  case flush => exact fun _ _ _ _ _ hs => hs.put _
  case flushRemove => exact fun _ _ _ _ _ hs => hs.filter rfl rfl
  case drop =>
    intro r x l s₁ _ _ _ _ _ hs hl _ _ _
    have hbroken : Distinct { deleteKernelRouteEntry r.ip r.netmask s₁ with routes := l } :=
      hs.broken hl rfl
    exact hbroken.put _
  case dropRemove =>
    intro r x l s₁ _ _ _ _ _ hs hl _ _ _
    have hbroken : Distinct { deleteKernelRouteEntry r.ip r.netmask s₁ with routes := l } :=
      hs.broken hl rfl
    exact hbroken.filter rfl rfl
  case number => exact fun _ _ _ hs => hs.put _

theorem step {e : Event} (h : Distinct s) (hs : step p e s = some t) : Distinct t := by
  cases e with
  | packet mem clk a =>
    obtain ⟨n, q, rfl, -⟩ := packetIn_cases (Option.some.inj hs)
    exact h.congr rfl rfl
  | output mem clk daddr =>
    obtain rfl : output p mem clk daddr s = t := Option.some.inj hs
    exact output_keeps (fun hs ht => hs.congr (congrArg Prod.fst ht) (congrArg (·.2.1) ht)) id
      (fun ip _ hs => hs.search ip) (fun _ _ _ _ hs => hs.put _) (fun _ _ hs => hs.put _) h
  | timer clk =>
    obtain rfl : timerQueueSignal clk s = t := Option.some.inj hs
    exact h.congr rfl rfl
  | thread mem clk =>
    rcases runTask_cases hs with ⟨-, rfl⟩ | ⟨τ, -, -, hh⟩
    · exact h
    · have hpop : Distinct { s with taskQ := s.taskQ.tail } := h.congr rfl rfl
      exact writes.handle hpop hh

end Distinct

end MobileCloudCaching.Aodv
