import MobileCloudCaching.Aodv.Writes
import MobileCloudCaching.Library.Keyed

/-!
# The kernel's routes

The two tables are written one after the other.  `update_aodv_route` gives the kernel
the next hop that it has written; `update_aodv_neigh_route` gives it the one that it
is about to replace.  A kernel route is known by its masked destination only, so that
two entries with the same one share it.
-/

namespace MobileCloudCaching.Aodv

open Transition

variable {p : Params} {mem : Mem} {clk : Clock} {s t : Router} {τ : Task}

namespace Route

/-- The destination that the kernel keeps for an entry. -/
def kernelDst (r : Route) : U32 := r.ip &&& r.netmask

/-- The route that the kernel should have for an entry. -/
def kernelRoute (r : Route) : KernelRoute := { dst := r.kernelDst, gateway := r.nextHop }

/-- `update_aodv_route` or `update_aodv_neigh_route` has written the entry, and it is no self
route. -/
def isLearned (r : Route) : Bool := r.learned && !r.selfRoute

/-- An entry that the kernel must have a route for. -/
def isLive (r : Route) : Bool := r.isLearned && r.routeValid

@[simp] theorem kernelRoute_refresh {r : Route} : (r.refresh clk).kernelRoute = r.kernelRoute := by
  simp [kernelRoute, kernelDst]

@[simp] theorem isLearned_refresh {r : Route} : (r.refresh clk).isLearned = r.isLearned := by
  simp [isLearned]

@[simp] theorem isLive_expire {r : Route} : (r.expire clk).isLive = false := by
  simp [isLive, expire]

end Route

theorem kernelDst_newRoute (ptr : ℕ) (ip : U32) : (newRoute ptr ip).kernelDst = ip :=
  BitVec.and_allOnes

/-- The kernel has one route for the address of each valid entry that has been
learned, and it goes through the next hop. -/
def Mirrored (s : Router) : Prop :=
  ∀ r ∈ s.routes, r.isLive = true →
    s.kernelRoutes.filter (fun k => k.dst == r.kernelDst) = [r.kernelRoute]

/-- The kernel route for `dst` is deleted, and written again if there is a
gateway, on behalf of the entry at `ptr`. -/
structure KernelWrite where
  ptr : ℕ
  dst : U32
  gateway : Option U32

/-- What the handler of a task does to the kernel's routes. -/
def Task.kernelWrites (mem : Mem) (clk : Clock) (τ : Task) (s : Router) : List KernelWrite :=
  ((τ.update clk s).filter fun u => u.accepted clk s).toList.map (fun u =>
    match foundRoute clk u.ip s with
    | some r => ⟨r.ptr, r.kernelDst, some u.nextHop⟩
    | none => ⟨s.nextPtr, u.ip, some u.nextHop⟩) ++
  (τ.heard mem s).toList.map (fun m =>
    match foundRoute clk m.dstIp s with
    | some r => ⟨r.ptr, r.kernelDst, some r.nextHop⟩
    | none => ⟨s.nextPtr, m.dstIp, some m.dstIp⟩) ++
  (if τ.type = .cleanup ∨ τ.type = .routeCleanup then s.routes.filter fun r =>
      timeBefore r.lifetime clk.now && !r.selfRoute && !r.routeValid
    else []).map (fun r => ⟨r.ptr, r.kernelDst, none⟩) ++
  (if τ.type = .neighbor ∧ (s.neighs.any fun n => n.ip == τ.srcIp) = true then
      ((foundRoute clk τ.srcIp s).filter fun r => r.nextHop == r.ip).toList
    else []).map (fun r => ⟨r.ptr, r.kernelDst, none⟩)

/-- The gateway makes `x` valid again when it answers the request in `τ`. -/
def Task.revives (p : Params) (clk : Clock) (τ : Task) (s : Router) (x : Route) : Bool :=
  match τ.type with
  | .packet (.rreq m) => p.gateway && !aodvSubnetTest p m.dstIp && (τ.update clk s).isSome &&
      validAodvNeigh clk τ.srcIp s && x.compare m.dstIp
  | _ => false

/-- An entry that the kernel must have a route for while `τ` is handled. -/
def Task.claims (p : Params) (clk : Clock) (τ : Task) (s : Router) (x : Route) : Bool :=
  x.isLearned && (x.routeValid || τ.revives p clk s x)

/-- The kernel routes that the handler of `τ` writes or deletes belong to no other entry,
or keep their gateway; a hello comes from the next hop of the entry; and what a gateway
makes valid is still known to the kernel. -/
def Task.KeepsMirror (p : Params) (mem : Mem) (clk : Clock) (τ : Task) (s : Router) : Prop :=
  (∀ w ∈ τ.kernelWrites mem clk s, ∀ x ∈ s.routes, x.ptr ≠ w.ptr → τ.claims p clk s x = true →
    x.kernelDst = w.dst → some x.nextHop = w.gateway) ∧
  (∀ m ∈ τ.heard mem s, ∀ r ∈ foundRoute clk m.dstIp s, r.selfRoute = false → r.nextHop = m.dstIp) ∧
  (∀ x ∈ s.routes, x.isLearned = true → τ.revives p clk s x = true → x.kernelRoute ∈ s.kernelRoutes)

instance (p : Params) (mem : Mem) (clk : Clock) (τ : Task) (s : Router) :
    Decidable (τ.KeepsMirror p mem clk s) := inferInstanceAs (Decidable (_ ∧ _ ∧ _))

/-! ## Entries that the kernel has a route for -/

/-- The kernel has one route at most for an address, and those for the entries in `c`. -/
structure Covered (c : Route → Bool) (s : Router) : Prop where
  distinct : Distinct s
  kernel : (s.kernelRoutes.map KernelRoute.dst).Nodup
  mirror : ∀ y ∈ s.routes, c y = true → y.kernelRoute ∈ s.kernelRoutes

namespace Covered

variable {c c' : Route → Bool}

theorem congr (h : Covered c s) (ht : tables t = tables s) : Covered c t := by
  obtain ⟨hroutes, hrest⟩ := Prod.mk.inj ht
  obtain ⟨hnext, hkernel⟩ := Prod.mk.inj hrest
  exact ⟨h.distinct.congr hroutes hnext,
    hkernel ▸ h.kernel, by rw [hroutes, hkernel]; exact h.mirror⟩

theorem mono (h : Covered c s) (hc : ∀ y ∈ s.routes, c' y = true → c y = true) : Covered c' s :=
  ⟨h.distinct, h.kernel, fun y hy hcy => h.mirror y hy (hc y hy hcy)⟩

theorem search (h : Covered c s) (hc : ∀ y, c (y.refresh clk) = true → c y = true) (ip : U32) :
    Covered c (searched clk ip s) where
  distinct := h.distinct.search ip
  kernel := h.kernel
  mirror y hy hcy := by
    obtain ⟨z, hz, rfl | rfl⟩ := exists_left_of_forall₂ marked_searched hy
    · exact h.mirror y hz hcy
    · rw [Route.kernelRoute_refresh]
      exact h.mirror z hz (hc z hcy)

theorem put (h : Covered c s) {r : Route} (hr : c r = true → r.kernelRoute ∈ s.kernelRoutes) :
    Covered c (putRoute r s) where
  distinct := h.distinct.put r
  kernel := h.kernel
  mirror y hy hcy := by
    rcases mem_putRoute hy with ⟨rfl, -⟩ | ⟨hy, -⟩
    · exact hr hcy
    · exact h.mirror y hy hcy

/-- A write that makes no further claim. -/
theorem putSame (h : Covered c s) {r r' : Route} (hr : r ∈ s.routes)
    (hroute : r'.kernelRoute = r.kernelRoute) (hc : c r' = true → c r = true) :
    Covered c (putRoute r' s) :=
  h.put fun hr' => hroute ▸ h.mirror r hr (hc hr')

theorem created (h : Covered c s) {ip : U32} (hc : c (newRoute s.nextPtr ip) = false) :
    Covered c (created ip s) where
  distinct := h.distinct.created ip
  kernel := h.kernel
  mirror y hy hcy := by
    rcases mem_created hy with rfl | hy
    · rw [hc] at hcy
      exact Bool.noConfusion hcy
    · exact h.mirror y hy hcy

theorem filter (h : Covered c s) {keep : Route → Bool} {t : Router}
    (hroutes : t.routes = s.routes.filter keep) (hnext : t.nextPtr = s.nextPtr)
    (hkernel : t.kernelRoutes = s.kernelRoutes) : Covered c t where
  distinct := h.distinct.filter hroutes hnext
  kernel := hkernel ▸ h.kernel
  mirror y hy hcy := by
    rw [hroutes] at hy
    exact hkernel ▸ h.mirror y (List.mem_filter.1 hy).1 hcy

/-- An entry is written, and the kernel's route for it. -/
theorem install (h : Covered c s) (r : Route) (gw : U32) (hr : c r = true → r.nextHop = gw)
    (hothers : ∀ y ∈ s.routes, y.ptr ≠ r.ptr → c y = true → y.kernelDst = r.kernelDst →
      y.nextHop = gw) :
    Covered c (insertKernelRouteEntry r.ip gw r.netmask
      (deleteKernelRouteEntry r.ip r.netmask (putRoute r s))) where
  distinct := (h.distinct.put r).congr rfl rfl
  kernel := Keyed.nodup_replace h.kernel rfl
  mirror y hy hcy := by
    rcases mem_putRoute hy with ⟨rfl, -⟩ | ⟨hy, hptr⟩
    · refine List.mem_cons.2 (.inl ?_)
      rw [Route.kernelRoute, hr hcy]
      rfl
    · by_cases hdst : y.kernelDst = r.kernelDst
      · refine List.mem_cons.2 (.inl ?_)
        rw [Route.kernelRoute, hothers y hy hptr hcy hdst, hdst]
        rfl
      · exact List.mem_cons_of_mem _ (Keyed.mem_eraseP_of_ne (h.mirror y hy hcy) hdst)

/-- The kernel's route for the address of `r` is deleted. -/
theorem remove (h : Covered c s) (ht : Distinct t) {r : Route}
    (hkernel : t.kernelRoutes = (deleteKernelRouteEntry r.ip r.netmask s).kernelRoutes)
    (hmem : ∀ y ∈ t.routes, c y = true → y ∈ s.routes ∧ y.kernelDst ≠ r.kernelDst) :
    Covered c t where
  distinct := ht
  kernel := by
    rw [hkernel]
    exact Keyed.nodup_eraseP h.kernel
  mirror y hy hcy := by
    obtain ⟨hy, hdst⟩ := hmem y hy hcy
    rw [hkernel]
    exact Keyed.mem_eraseP_of_ne (h.mirror y hy hcy) hdst

theorem mirrored (h : Covered Route.isLive s) : Mirrored s := fun r hr hlive =>
  Keyed.filter_eq_singleton h.kernel (h.mirror r hr hlive) rfl

theorem initModule (h : initModule p clk = some s) : Covered Route.isLive s := by
  refine ⟨.initModule h, ?_, fun y hy hlive => ?_⟩
  all_goals
    rw [initModule_eq] at h
    rw [← Option.some.inj h] at *
  · exact List.nodup_singleton _
  · have hself := (mem_initialRoutes hy).2.1
    simp [Route.isLive, Route.isLearned, hself] at hlive

end Covered

/-! ## While a task is handled -/

/-- The entry `x` and what it has become while `τ` is handled. -/
structure MirrorRel (p : Params) (clk : Clock) (τ : Task) (s : Router) (x y : Route) : Prop where
  place : y.kernelDst = x.kernelDst
  /-- an entry is as it was, or its update has been accepted -/
  keep : τ.claims p clk s y = true → τ.claims p clk s x = true ∧ y.nextHop = x.nextHop ∨
    ∃ u ∈ τ.update clk s, ∃ r ∈ foundRoute clk u.ip s, r.ptr = x.ptr

/-- The tables while `τ` is handled, compared with those before. -/
structure MirrorKept (p : Params) (clk : Clock) (τ : Task) (s t : Router) : Prop where
  covered : Covered (τ.claims p clk s) t
  next : s.nextPtr ≤ t.nextPtr
  rel : ∀ x ∈ s.routes, ∀ y ∈ t.routes, y.ptr = x.ptr → MirrorRel p clk τ s x y
  /-- only an update makes a learned entry -/
  new : ∀ y ∈ t.routes, (∀ x ∈ s.routes, y.ptr ≠ x.ptr) → y.isLearned = true →
    ∃ u ∈ τ.update clk s, foundRoute clk u.ip s = none ∧ y.nextHop = u.nextHop

theorem claims_of_live {y : Route} (h : y.isLive = true) : τ.claims p clk s y = true := by
  simp only [Route.isLive, Bool.and_eq_true] at h
  simp [Task.claims, h.1, h.2]

theorem isLearned_of_claims {y : Route} (h : τ.claims p clk s y = true) : y.isLearned = true := by
  simp only [Task.claims, Bool.and_eq_true] at h
  exact h.1

/-- Only the flag, the next hop and the address of an entry matter. -/
theorem claims_of_eq {x y : Route} (hlearned : y.isLearned = x.isLearned)
    (hvalid : y.routeValid = true → x.routeValid = true) (hcmp : ∀ ip, y.compare ip = x.compare ip)
    (h : τ.claims p clk s y = true) : τ.claims p clk s x = true := by
  have hrevives : τ.revives p clk s y = τ.revives p clk s x := by
    unfold Task.revives
    simp only [hcmp]
  simp only [Task.claims, Bool.and_eq_true, Bool.or_eq_true, hlearned, hrevives] at h ⊢
  exact ⟨h.1, h.2.imp_left hvalid⟩

theorem claims_of_refresh {y : Route} (h : τ.claims p clk s (y.refresh clk) = true) :
    τ.claims p clk s y = true := by
  refine claims_of_eq Route.isLearned_refresh (fun hv => ?_) Route.compare_refresh h
  rwa [Route.routeValid_of_refresh hv] at hv

/-- Outside a gateway's answers, only valid entries matter. -/
theorem claims_eq_isLive {y : Route} (h : ∀ m, τ.type ≠ .packet (.rreq m)) :
    τ.claims p clk s y = y.isLive := by
  have hrevives : τ.revives p clk s y = false := by
    unfold Task.revives
    split
    · exact absurd ‹_› (h _)
    · rfl
  rw [Task.claims, hrevives, Bool.or_false]
  rfl

namespace MirrorKept

theorem start (h : Covered Route.isLive s) (hok : τ.KeepsMirror p mem clk s) :
    MirrorKept p clk τ s s where
  covered := by
    refine ⟨h.distinct, h.kernel, fun y hy hc => ?_⟩
    have hlearned := isLearned_of_claims hc
    simp only [Task.claims, Bool.and_eq_true, Bool.or_eq_true] at hc
    rcases hc.2 with hv | hrev
    · exact h.mirror y hy (by simp [Route.isLive, hlearned, hv])
    · exact hok.2.2 y hy hlearned hrev
  next := le_rfl
  rel x hx y hy he := by
    obtain rfl := h.distinct.eq_of_ptr hy hx he
    exact ⟨rfl, fun hc => .inl ⟨hc, rfl⟩⟩
  new y hy hno := absurd rfl (hno y hy)

theorem congr (h : MirrorKept p clk τ s t) {t' : Router} (ht : tables t' = tables t) :
    MirrorKept p clk τ s t' := by
  have hroutes : t'.routes = t.routes := congrArg Prod.fst ht
  have hnext : t'.nextPtr = t.nextPtr := congrArg (·.2.1) ht
  exact ⟨h.covered.congr ht, hnext ▸ h.next, by rw [hroutes]; exact h.rel,
    by rw [hroutes]; exact h.new⟩

theorem live (h : MirrorKept p clk τ s t) : Covered Route.isLive t :=
  h.covered.mono fun _ _ => claims_of_live

theorem search (h : MirrorKept p clk τ s t)
    (ip : U32) : MirrorKept p clk τ s (searched clk ip t) where
  covered := h.covered.search (fun _ => claims_of_refresh) ip
  next := h.next
  rel x hx y hy he := by
    obtain ⟨z, hz, rfl | rfl⟩ := exists_left_of_forall₂ marked_searched hy
    · exact h.rel x hx y hz he
    · have hrel := h.rel x hx z hz (Route.ptr_refresh.symm.trans he)
      refine ⟨(congrArg KernelRoute.dst Route.kernelRoute_refresh).trans hrel.place, fun hc => ?_⟩
      rw [Route.nextHop_refresh]
      exact hrel.keep (claims_of_refresh hc)
  new y hy hno hlearned := by
    obtain ⟨z, hz, rfl | rfl⟩ := exists_left_of_forall₂ marked_searched hy
    · exact h.new y hz hno hlearned
    · rw [Route.nextHop_refresh]
      simp only [Route.ptr_refresh, Route.isLearned_refresh] at hno hlearned
      exact h.new z hz hno hlearned

/-- A write to an entry, when the kernel has the routes that it must have afterwards. -/
theorem write (h : MirrorKept p clk τ s t) {r : Route} {t' : Router}
    (hcovered : Covered (τ.claims p clk s) t') (hroutes : t'.routes = (putRoute r t).routes)
    (hnext : t'.nextPtr = t.nextPtr)
    (hrel : ∀ x ∈ s.routes, r.ptr = x.ptr → MirrorRel p clk τ s x r)
    (hnew : (∀ x ∈ s.routes, r.ptr ≠ x.ptr) → r.isLearned = true →
      ∃ u ∈ τ.update clk s, foundRoute clk u.ip s = none ∧ r.nextHop = u.nextHop) :
    MirrorKept p clk τ s t' where
  covered := hcovered
  next := hnext ▸ h.next
  rel x hx y hy he := by
    rw [hroutes] at hy
    rcases mem_putRoute hy with ⟨rfl, -⟩ | ⟨hy, -⟩
    · exact hrel x hx he
    · exact h.rel x hx y hy he
  new y hy hno hlearned := by
    rw [hroutes] at hy
    rcases mem_putRoute hy with ⟨rfl, -⟩ | ⟨hy, -⟩
    · exact hnew hno hlearned
    · exact h.new y hy hno hlearned

/-- A write that makes no further claim. -/
theorem putSame (h : MirrorKept p clk τ s t) {r r' : Route} (hr : r ∈ t.routes)
    (hptr : r'.ptr = r.ptr) (hroute : r'.kernelRoute = r.kernelRoute)
    (hlearned : r'.isLearned = r.isLearned)
    (hc : τ.claims p clk s r' = true → τ.claims p clk s r = true) :
    MirrorKept p clk τ s (putRoute r' t) := by
  have hdst : r'.kernelDst = r.kernelDst := congrArg KernelRoute.dst hroute
  have hnext : r'.nextHop = r.nextHop := congrArg KernelRoute.gateway hroute
  refine h.write (h.covered.putSame hr hroute hc) rfl rfl (fun x hx he => ?_) fun hno hl => ?_
  · have hrel := h.rel x hx r hr (hptr ▸ he)
    refine ⟨hdst.trans hrel.place, fun hr' => ?_⟩
    rw [hnext]
    exact hrel.keep (hc hr')
  · rw [hnext]
    exact h.new r hr (hptr ▸ hno) (hlearned ▸ hl)

/-- A new entry. -/
theorem created (h : MirrorKept p clk τ s t) (hs : Distinct s) (ip : U32) :
    MirrorKept p clk τ s (created ip t) where
  covered := h.covered.created (by simp [Task.claims, Route.isLearned, newRoute])
  next := Nat.le_succ_of_le h.next
  rel x hx y hy he := by
    rcases mem_created hy with rfl | hy
    · have hlt := Nat.lt_of_lt_of_le (hs.lt x hx) h.next
      exact absurd he (Nat.ne_of_gt hlt)
    · exact h.rel x hx y hy he
  new y hy hno hlearned := by
    rcases mem_created hy with rfl | hy
    · exact Bool.noConfusion hlearned
    · exact h.new y hy hno hlearned

/-- What the other entries at a kernel route go through. -/
theorem through (h : MirrorKept p clk τ s t) {w : KernelWrite}
    (hw : ∀ x ∈ s.routes, x.ptr ≠ w.ptr → τ.claims p clk s x = true → x.kernelDst = w.dst →
      some x.nextHop = w.gateway)
    (hfound : ∀ u ∈ τ.update clk s, ∀ r ∈ foundRoute clk u.ip s, r.ptr = w.ptr)
    (hnone : ∀ u ∈ τ.update clk s, foundRoute clk u.ip s = none → some u.nextHop = w.gateway)
    {y : Route} (hy : y ∈ t.routes) (hptr : ∀ x ∈ s.routes, y.ptr = x.ptr → x.ptr ≠ w.ptr)
    (hc : τ.claims p clk s y = true) (hdst : y.kernelDst = w.dst) : some y.nextHop = w.gateway := by
  by_cases hold : ∃ x ∈ s.routes, y.ptr = x.ptr
  · obtain ⟨x, hx, he⟩ := hold
    have hrel := h.rel x hx y hy he
    rcases hrel.keep hc with ⟨hcx, hnext⟩ | ⟨u, hu, r, hr, hrx⟩
    · rw [hnext]
      exact hw x hx (hptr x hx he) hcx (hrel.place.symm.trans hdst)
    · exact absurd (hrx.symm.trans (hfound u hu r hr)) (hptr x hx he)
  · obtain ⟨u, hu, hno, hnext⟩ :=
      h.new y hy (fun x hx he => hold ⟨x, hx, he⟩) (isLearned_of_claims hc)
    rw [hnext]
    exact hnone u hu hno

/-- Nothing else in the table claims a kernel route that is deleted. -/
theorem ne_of_deleted (h : MirrorKept p clk τ s t) {ptr : ℕ} {dst : U32}
    (hw : ∀ x ∈ s.routes, x.ptr ≠ ptr → τ.claims p clk s x = true → x.kernelDst = dst →
      some x.nextHop = none)
    (hτ : τ.update clk s = none) {y : Route} (hy : y ∈ t.routes) (hptr : y.ptr ≠ ptr)
    (hc : τ.claims p clk s y = true) : y.kernelDst ≠ dst := fun hdst => by
  have hnone := h.through (w := ⟨ptr, dst, none⟩) hw (by simp [hτ]) (by simp [hτ]) hy
    (fun x _ he => he ▸ hptr) hc hdst
  exact Option.some_ne_none _ hnone

end MirrorKept

theorem update_eq_none_of_type {type : TaskType} (h : τ.type = type) (hne : ∀ m, type ≠ .packet m) :
    τ.update clk s = none := by
  unfold Task.update
  split
  · exact absurd (h.symm.trans ‹_›) (hne _)
  · exact absurd (h.symm.trans ‹_›) (hne _)
  · rfl

/-- A hello makes no update. -/
theorem update_eq_none_of_heard {m : Rrep} (h : τ.heard mem s = some m) :
    τ.update clk s = none := by
  unfold Task.heard at h
  split at h
  · rename_i m' hτ
    obtain ⟨hm, -⟩ := Option.ite_none_right_eq_some.1 h
    simp [Task.update, hτ, hm.1]
  · cases h

theorem MirrorKept.writes (hs : Covered Route.isLive s) (hok : τ.KeepsMirror p mem clk s) :
    HandlerWrites p mem clk τ s (MirrorKept p clk τ s) (Covered Route.isLive) := by
  obtain ⟨hothers, hhello, -⟩ := hok
  have hlt : ∀ {s₁ x}, MirrorKept p clk τ s s₁ → x ∈ s.routes → x.ptr < s₁.nextPtr :=
    fun h hx => Nat.lt_of_lt_of_le (hs.distinct.lt _ hx) h.next
  constructor
  case congr => exact fun h ht => h.congr ht
  case congrEnd => exact fun h ht => h.congr ht
  case done => exact live
  case search => exact fun ip _ h => h.search ip
  case update =>
    intro u r s₁ hu hacc hr hmem h
    have hw := hothers ⟨r.ptr, r.kernelDst, some u.nextHop⟩
      (by simp [Task.kernelWrites, hu, hacc, hr])
    have hcovered := h.covered.install (u.route clk r) u.nextHop (fun _ => rfl)
      fun y hy hptr hc hdst => Option.some.inj <|
      h.through hw (by simp [hu, hr]) (by simp [hu, hr]) hy
        (fun x _ he => he ▸ hptr) hc hdst
    have hwrite : MirrorKept p clk τ s (insertKernelRouteEntry r.ip u.nextHop r.netmask
        (deleteKernelRouteEntry r.ip r.netmask (putRoute (u.route clk r) s₁))) := by
      refine h.write hcovered rfl rfl (fun x hx he => ?_) fun hno _ => ?_
      · exact ⟨(h.rel x hx r hmem he).place, fun _ => .inr ⟨u, hu, r, hr, he⟩⟩
      · obtain ⟨-, x, hx, rfl⟩ := mem_of_foundRoute hr
        exact absurd Route.ptr_refresh (hno x hx)
    exact hwrite.congr rfl
  case updateNew =>
    intro u s₁ hu hacc hr _ h
    have hw := hothers ⟨s.nextPtr, u.ip, some u.nextHop⟩ (by simp [Task.kernelWrites, hu, hacc, hr])
    have hc := h.created hs.distinct u.ip
    have hcovered := hc.covered.install (u.route clk (newRoute s₁.nextPtr u.ip)) u.nextHop
      (fun _ => rfl) fun y hy _ hclaim hdst => Option.some.inj <| hc.through hw (by simp [hu, hr])
        (by simp [hu]) hy (fun x hx _ => Nat.ne_of_lt (hs.distinct.lt x hx)) hclaim
        (hdst.trans (kernelDst_newRoute s₁.nextPtr u.ip))
    have hwrite : MirrorKept p clk τ s (insertKernelRouteEntry u.ip u.nextHop broadcastIp
        (deleteKernelRouteEntry u.ip broadcastIp
          (putRoute (u.route clk (newRoute s₁.nextPtr u.ip)) (Aodv.created u.ip s₁)))) :=
      hc.write hcovered rfl rfl (fun x hx he => absurd he (Nat.ne_of_gt (hlt h hx)))
        fun _ _ => ⟨u, hu, hr, rfl⟩
    exact hwrite.congr rfl
  case hello =>
    intro m n r s₁ hm hn hr _ h
    have hupdate : τ.update clk s = none := update_eq_none_of_heard hm
    have hw := hothers ⟨r.ptr, r.kernelDst, some r.nextHop⟩ (by simp [Task.kernelWrites, hm, hr])
    refine h.live.install (n.route clk m r) r.nextHop (fun hlive => ?_)
      fun y hy hptr hc hdst => Option.some.inj <|
      h.through hw (by simp [hupdate]) (by simp [hupdate]) hy
        (fun x _ he => he ▸ hptr) (claims_of_live hc) hdst
    have hself : r.selfRoute = false := by
      simp only [Route.isLive, Route.isLearned, Bool.and_eq_true, Bool.not_eq_true'] at hlive
      exact hlive.1.2
    exact hn.trans (hhello m hm r hr hself).symm
  case helloNew =>
    intro m n s₁ hm hn hr _ h
    have hupdate : τ.update clk s = none := update_eq_none_of_heard hm
    have hw := hothers ⟨s.nextPtr, m.dstIp, some m.dstIp⟩ (by simp [Task.kernelWrites, hm, hr])
    have hc := h.created hs.distinct m.dstIp
    exact hc.live.install (n.route clk m (newRoute s₁.nextPtr m.dstIp)) m.dstIp
      (fun _ => hn) fun y hy _ hlive hdst => Option.some.inj <| hc.through hw (by simp [hupdate])
        (by simp [hupdate]) hy (fun x hx _ => Nat.ne_of_lt (hs.distinct.lt x hx))
          (claims_of_live hlive)
        (hdst.trans (kernelDst_newRoute s₁.nextPtr m.dstIp))
  case revive =>
    intro m r s₁ hτ hup hvalid hgw hsub hr hmem h
    refine h.putSame hmem rfl rfl rfl fun hc => ?_
    have hcmp := (mem_of_foundRoute hr).1
    have hl := isLearned_of_claims hc
    have hlearned : r.isLearned = true := hl
    simp [Task.claims, Task.revives, hτ, hgw, hsub, hup, hvalid, hcmp, hlearned]
  case ownSeq => exact fun _ hmem _ _ h => h.putSame hmem rfl rfl rfl fun hc => hc
  case gateway =>
    intro m r s₁ hτ _ _ _ _ h
    have hc := h.created hs.distinct m.dstIp
    have hcovered := hc.covered.put (r := gatewayRoute clk m.dstIp r (newRoute s₁.nextPtr m.dstIp))
      fun hclaim => Bool.noConfusion (isLearned_of_claims hclaim)
    exact hc.write hcovered rfl rfl (fun x hx he => absurd he (Nat.ne_of_gt (hlt h hx)))
      fun _ hlearned => Bool.noConfusion hlearned
  case rerr =>
    intro m d r s₁ _ _ _ hmem _ _ h
    exact ⟨fun _ => h.putSame hmem rfl rfl rfl fun hc => hc, fun _ => h.putSame hmem rfl rfl rfl
      (claims_of_eq rfl Bool.noConfusion fun _ => rfl)⟩
  case flush =>
    intro r s₁ hτ hmem _ _ _ h
    have hclaim : τ.claims p clk s (r.expire clk) = false := by
      rw [claims_eq_isLive fun m hm => by
        rcases hτ with hτ | hτ <;> exact TaskType.noConfusion (hτ.symm.trans hm),
          Route.isLive_expire]
    have hcovered := h.covered.put (r := r.expire clk) fun hc =>
      Bool.noConfusion (hclaim.symm.trans hc)
    refine h.write hcovered rfl rfl (fun x hx he => ?_) fun hno _ => absurd rfl (hno r hmem)
    obtain rfl := hs.distinct.eq_of_ptr hmem hx he
    exact ⟨rfl, fun hc => Bool.noConfusion (hclaim.symm.trans hc)⟩
  case flushRemove =>
    intro r s₁ hτ hmem hdue hself hv h
    have hw := hothers ⟨r.ptr, r.kernelDst, none⟩ <| by
      refine List.mem_append_left _ (List.mem_append_right _ (List.mem_map.2 ⟨r, ?_, rfl⟩))
      rw [if_pos hτ]
      exact List.mem_filter.2 ⟨hmem, by simp [hdue, hself, hv]⟩
    have hupdate : τ.update clk s = none :=
      hτ.elim (update_eq_none_of_type · (by simp)) (update_eq_none_of_type · (by simp))
    refine ⟨?_, h.next, fun x hx y hy => h.rel x hx y (List.mem_filter.1 hy).1,
      fun y hy => h.new y (List.mem_filter.1 hy).1⟩
    refine h.covered.remove (h.covered.distinct.filter rfl rfl) (r := r) rfl fun y hy hc => ?_
    obtain ⟨hy, hptr⟩ := List.mem_filter.1 hy
    exact ⟨hy, h.ne_of_deleted hw hupdate hy (by simpa using hptr) hc⟩
  case drop =>
    intro r x l s₁ hτ hn hr hnext _ h hl _ hptr _
    have hw := hothers ⟨r.ptr, r.kernelDst, none⟩ (by simp [Task.kernelWrites, hτ, hn, hr, hnext])
    have hupdate : τ.update clk s = none := update_eq_none_of_type hτ (by simp)
    have hbroken : Distinct { deleteKernelRouteEntry r.ip r.netmask s₁ with routes := l } :=
      h.covered.distinct.of_map hl.map_ptr rfl
    refine h.live.remove (hbroken.put _) (r := r) rfl fun y hy hlive => ?_
    rcases mem_putRoute hy with ⟨rfl, -⟩ | ⟨hy, hyx⟩
    · rw [Route.isLive_expire] at hlive
      exact Bool.noConfusion hlive
    · obtain ⟨z, hz, rfl | ⟨-, -, -, rfl⟩⟩ := exists_left_of_forall₂ hl hy
      · exact ⟨hz, h.ne_of_deleted hw hupdate hz (hptr ▸ hyx) (claims_of_live hlive)⟩
      · rw [Route.isLive_expire] at hlive
        exact Bool.noConfusion hlive
  case dropRemove =>
    intro r x l s₁ hτ hn hr hnext _ h hl _ hptr _
    have hw := hothers ⟨r.ptr, r.kernelDst, none⟩ (by simp [Task.kernelWrites, hτ, hn, hr, hnext])
    have hupdate : τ.update clk s = none := update_eq_none_of_type hτ (by simp)
    have hbroken : Distinct { deleteKernelRouteEntry r.ip r.netmask s₁ with routes := l } :=
      h.covered.distinct.of_map hl.map_ptr rfl
    refine h.live.remove (hbroken.filter rfl rfl) (r := r) rfl fun y hy hlive => ?_
    obtain ⟨hy, hyx⟩ := List.mem_filter.1 hy
    obtain ⟨z, hz, rfl | ⟨-, -, -, rfl⟩⟩ := exists_left_of_forall₂ hl hy
    · exact ⟨hz, h.ne_of_deleted hw hupdate hz (by simpa [hptr] using hyx) (claims_of_live hlive)⟩
    · rw [Route.isLive_expire] at hlive
      exact Bool.noConfusion hlive
  case number =>
    intro r s₁ _ _ hmem h
    have hput : MirrorKept p clk τ s (putRoute r.numbered s₁) :=
      h.putSame hmem rfl rfl rfl fun hc => hc
    exact hput.live

/-! ## Runs -/

theorem covered_step {e : Event} (h : Covered Route.isLive s)
    (hok : NextTask (Task.KeepsMirror p) e s) (hs : step p e s = some t) :
    Covered Route.isLive t := by
  cases e with
  | packet mem clk a =>
    obtain ⟨n, q, rfl, -⟩ := packetIn_cases (Option.some.inj hs)
    exact h.congr rfl
  | output mem clk daddr =>
    obtain rfl : output p mem clk daddr s = t := Option.some.inj hs
    have hrefresh : ∀ y : Route, (y.refresh clk).isLive = true → y.isLive = true := fun y hy => by
      simp only [Route.isLive, Route.isLearned_refresh, Bool.and_eq_true] at hy ⊢
      exact ⟨hy.1, Route.routeValid_of_refresh hy.2 ▸ hy.2⟩
    exact output_keeps (fun h ht => h.congr ht) id (fun ip _ h => h.search hrefresh ip)
      (fun _ hmem _ _ h => h.putSame hmem rfl fun hc => hc)
      (fun _ hmem h => h.putSame hmem rfl fun hc => hc) h
  | timer clk =>
    obtain rfl : timerQueueSignal clk s = t := Option.some.inj hs
    exact h.congr rfl
  | thread mem clk =>
    rcases runTask_cases hs with ⟨-, rfl⟩ | ⟨τ, hhead, -, hh⟩
    · exact h
    · have hpop : Covered Route.isLive { s with taskQ := s.taskQ.tail } := h.congr rfl
      exact (MirrorKept.writes hpop (hok τ hhead)).handle (.start hpop (hok τ hhead)) hh

/-- In a run in which no task takes the kernel route of another entry, a hello comes
from the next hop of its entry, and a gateway makes no entry valid that the kernel
has lost, the kernel mirrors the table. -/
theorem kernel_mirrors {events : List Event} (h₀ : initModule p clk = some s)
    (hok : AllSteps (step p) (NextTask (Task.KeepsMirror p)) events s) :
    Along (step p) Mirrored events s :=
  (along_of_step (fun _ _ _ h hok hs => covered_step h hok hs) (.initModule h₀) hok).mono
    fun _ h => h.mirrored

/-- Node 2 is heard, and tells the way to node 3. -/
def learningRun : List Event :=
  handled 1 (helloFrom (peer 2) 1) ++ handled 2 (replyFrom (peer 2) plainNode.myIp (peer 3) 5 1)

theorem kernel_mirrors_learningRun : ∃ s, initModule plainNode (clockAt 0) = some s ∧
    Along (step plainNode) Mirrored learningRun s := by
  have hok : (initModule plainNode (clockAt 0)).all (fun s => decide (AllSteps (step plainNode)
      (NextTask (Task.KeepsMirror plainNode)) learningRun s)) = true := by decide +kernel
  obtain ⟨s, hs⟩ : ∃ s, initModule plainNode (clockAt 0) = some s := ⟨_, initModule_eq _ _⟩
  rw [hs] at hok
  exact ⟨s, hs, kernel_mirrors hs (of_decide_eq_true hok)⟩

/-- Then node 3 is heard itself. -/
def approachRun : List Event := learningRun ++ handled 3 (helloFrom (peer 3) 6)

/-- The kernel still sends packets for node 3 through node 2. -/
theorem not_kernel_mirrors_approachRun :
    ¬∀ (p : Params) (clk : Clock) (events : List Event) (s t : Router), initModule p clk = some s →
      exec (step p) events s = some t → Along (step p) Mirrored events s := by
  intro h
  have hrun : (runFrom plainNode (clockAt 0) approachRun).any (fun t => t.routes.any fun r =>
      r.isLive && !decide (t.kernelRoutes.filter (fun k => k.dst == r.kernelDst) = [r.kernelRoute]))
        = true := by decide +kernel
  obtain ⟨s, t, hs, ht, hq⟩ := exists_of_runFrom _ hrun
  obtain ⟨r, hr, hq⟩ := List.any_eq_true.1 hq
  simp only [Bool.and_eq_true, Bool.not_eq_true', decide_eq_false_iff_not] at hq
  have hmirrored : Mirrored t :=
    Along.reached (by rw [List.append_nil]; exact h plainNode _ _ s t hs ht) ht
  exact hq.2 (hmirrored r hr hq.1)

end MobileCloudCaching.Aodv
