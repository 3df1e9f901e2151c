import MobileCloudCaching.Aodv.Replacement

/-!
# What others rely on

A node that has a route through another one, or has got a message from it, relies on an entry of
the other table that is at least as new.  `update_aodv_route` never takes a route that is not
newer than the entry at hand, so that no route leads back to a node that others rely on.
`Careful` is what a handler must not do: forget or lower a sequence number that others rely on,
write the route into the entry of a subnet, or make a route valid again that leads through another
node.  `Upheld` is what it keeps then.
-/

namespace MobileCloudCaching.Aodv

open Octets

variable {p : Params} {mem : Mem} {clk : Clock} {s s₁ t : Router} {τ : Task}
    {d : AodvDst} {r x : Route}

/-- The table has an entry for `d.ip` that is at least as new as `d`. -/
def Serves (d : AodvDst) (s : Router) : Prop := ∃ r ∈ s.routes, r.ip = d.ip ∧ d.seq ≤ r.seq

/-- The route that a message offers to those who get it.  A hello makes a direct route only. -/
def Message.offer : Message → Option AodvDst
  | .rreq m => some { ip := m.srcIp, seq := m.srcSeq }
  | .rrep m => if m.srcIp = m.dstIp then none else some { ip := m.dstIp, seq := m.dstSeq }
  | _ => none

/-- Sequence numbers below this one can be advanced twice within the positive half of the circle. -/
def seqLimit : U32 := 0x7FFFFFFE

/-! ## The condition of a step -/

/-- `update_aodv_route` comes to the entry for the very address or has the memory for a new one,
and does not overwrite a route that start-up has made. -/
def Update.Safe (p : Params) (mem : Mem) (clk : Clock) (u : Update) (s : Router) : Prop :=
  u.seq < seqLimit ∧
    match foundRoute clk u.ip s with
    | some r => r.ip = u.ip ∧ (u.accepted clk s = true → r.selfRoute = false ∧ u.ip ≠ p.myIp)
    | none => mem .route 0 = true ∧ u.ip ≠ p.myIp

instance (u : Update) : Decidable (u.Safe p mem clk s) := by
  unfold Update.Safe
  cases foundRoute clk u.ip s <;> infer_instance

/-- What the handler of `τ` must not do in the state `s` when others rely on the routes `Δ`. -/
def Task.Careful (p : Params) (mem : Mem) (clk : Clock) (τ : Task) (Δ : List AodvDst)
    (s : Router) : Prop :=
  match τ.type with
  | .packet (.rreq m) => m.dstSeq < seqLimit ∧
    ((τ.update clk s).isSome = true → validAodvNeigh clk τ.srcIp s = true →
    (m.update τ).Safe p mem clk s ∧
      -- a gateway does not take up a lost route through another node
      (p.gateway = true → aodvSubnetTest p m.dstIp = false → ∀ r ∈ foundRoute clk m.dstIp s,
        r.routeValid = true ∨ r.nextHop = r.ip))
  | .packet (.rrep m) =>
    if m.srcIp = m.dstIp then
      -- a hello is not older than what others rely on
      τ.heard mem s = some m → ∀ r ∈ foundRoute clk m.dstIp s,
        r.ip = m.dstIp ∧ ∀ d ∈ Δ, d.ip = m.dstIp → d.seq ≤ m.dstSeq
    else validAodvNeigh clk τ.srcIp s = true → (m.update τ).Safe p mem clk s
  | .packet (.rerr m) =>
      (∀ e ∈ m.dsts, e.seq < seqLimit) ∧ (∀ i < m.dstCount.toNat, mem .rerrRoute i = true) ∧
    ∀ e ∈ m.dsts.take m.dstCount.toNat, ∀ r ∈ s.routes, r.ip = e.ip → r.selfRoute = false →
    r.nextHop = τ.srcIp →
      ∀ d ∈ Δ, d.ip = e.ip → d.seq ≤ e.seq
  | .cleanup | .routeCleanup =>
      ∀ r ∈ s.routes, timeBefore r.lifetime clk.now = true → r.selfRoute = false →
    r.routeValid = false → ∀ d ∈ Δ, d.ip ≠ r.ip
  | .neighbor => (s.neighs.any fun n => n.ip == τ.srcIp) = true → ∀ r ∈ foundRoute clk τ.srcIp s,
    r.nextHop = r.ip → ∀ d ∈ Δ, d.ip ≠ r.ip
  | _ => True

instance (mem : Mem) (τ : Task) (Δ : List AodvDst) : Decidable (τ.Careful p mem clk Δ s) := by
  obtain ⟨type⟩ := τ
  unfold Task.Careful
  match type with
  | .packet (.rreq _) | .packet (.rrep _) | .packet (.rerr _) | .packet .rrepAck
  | .resendRreq | .hello | .neighbor | .cleanup | .routeCleanup => infer_instance

/-! ## Entries -/

/-- What holds of every entry of a table. -/
structure Route.Plain (p : Params) (r : Route) : Prop where
  ip_ne : r.ip ≠ 0
  mask : r.selfRoute = false → r.netmask = broadcastIp
  direct : r.selfRoute = true ∨ r.ip = p.myIp → r.nextHop = r.ip

/-- The route stands in the table of `s`. -/
def Route.Stays (s : Router) (r : Route) : Prop :=
  ∃ x ∈ s.routes, x.routeValid = true ∧ x.ip = r.ip ∧ x.nextHop = r.nextHop ∧ x.seq = r.seq

/-- The route comes from the message in `τ`, and the table of `s` has none that is as new. -/
def Route.IsNew (clk : Clock) (τ : Task) (s : Router) (r : Route) : Prop :=
  ∃ u, τ.update clk s = some u ∧ r.ip = u.ip ∧ r.nextHop = u.nextHop ∧ r.seq = u.seq ∧
    ¬Serves { ip := u.ip, seq := u.seq } s

/-- An entry after the handler of `τ` that started from `s`. -/
structure Route.Sound (p : Params) (clk : Clock) (τ : Task) (s : Router)
    (r : Route) : Prop extends r.Plain p where
  indirect : r.routeValid = true → r.nextHop ≠ r.ip → r.Stays s ∨ r.IsNew clk τ s

/-- An entry while this handler runs: it can be advanced once more, a request does not make it
lapse, and a route error does not lead it elsewhere. -/
structure Route.Steady (p : Params) (clk : Clock) (τ : Task) (s : Router) (r : Route) : Prop
    extends r.Sound p clk τ s where
  high : r.seq ≤ seqLimit
  stale : r.stale clk = true → r.seq < seqLimit
  lapsed : (∃ m, τ.type = .packet (.rreq m)) → (r.refresh clk).routeValid = false →
  r.nextHop ≠ r.ip →
    ∃ x ∈ s.routes, x.ip = r.ip ∧ x.nextHop = r.nextHop ∧ (x.refresh clk).routeValid = false
  hop : (∃ m, τ.type = .packet (.rerr m)) →
    ∃ x ∈ s.routes, x.ip = r.ip ∧ x.nextHop = r.nextHop ∧ x.selfRoute = r.selfRoute

/-- What a handler that starts from `s` relies on while others rely on `Δ`. -/
structure Kept (p : Params) (clk : Clock) (τ : Task) (Δ : List AodvDst) (s s₁ : Router) : Prop
    extends OrderedFrom s s₁ where
  steady : ∀ r ∈ s₁.routes, r.Steady p clk τ s
  serves : ∀ d ∈ Δ, Serves d s₁

/-- What it leaves. -/
structure Upheld (p : Params) (clk : Clock) (τ : Task) (Δ : List AodvDst) (s t : Router) : Prop
    extends Ordered t where
  sound : ∀ r ∈ t.routes, r.Sound p clk τ s
  serves : ∀ d ∈ Δ, Serves d t

/-! ## Entries that others rely on -/

namespace Serves

theorem congr (h : Serves d s) (hroutes : t.routes = s.routes) : Serves d t := by
  rwa [Serves, hroutes]

theorem search (h : Serves d s) (hs : ∀ r ∈ s.routes, r.stale clk = true → r.seq < seqLimit)
    (ip : U32) :
    Serves d (searched clk ip s) := by
  obtain ⟨r, hr, hip, hseq⟩ := h
  obtain ⟨y, hy, hry⟩ := exists_right_of_forall₂ marked_searched hr
  rcases hry with rfl | rfl
  · exact ⟨y, hy, hip, hseq⟩
  · refine ⟨_, hy, by rw [Route.ip_refresh, hip], ?_⟩
    rcases r.refresh_eq_or clk with h | ⟨hstale, h⟩
    · rwa [h]
    · have hlt := hs r hr hstale
      rw [h]
      show d.seq ≤ r.seq + 1
      unfold seqLimit at hlt
      bv_omega

/-- A write to the entry `r`. -/
theorem putOf (h : Serves d s) (hs : Distinct s) {r' : Route} (hr : r ∈ s.routes)
    (hptr : r'.ptr = r.ptr) (hip : r'.ip = r.ip)
    (hseq : r.ip = d.ip → r.seq ≤ r'.seq ∨ d.seq ≤ r'.seq) : Serves d (putRoute r' s) := by
  obtain ⟨x, hx, hxip, hxseq⟩ := h
  refine ⟨if x.ptr = r'.ptr then r' else x, List.mem_map_of_mem hx, ?_⟩
  split
  · rename_i he
    obtain rfl := hs.eq_of_ptr hx hr (he.trans hptr)
    exact ⟨hip.trans hxip, (hseq hxip).elim (BitVec.le_trans hxseq) id⟩
  · exact ⟨hxip, hxseq⟩

theorem putNew (h : Serves d s) (hs : Distinct s) {ip : U32} (hptr : r.ptr = s.nextPtr) :
    Serves d (putRoute r (created ip s)) := by
  obtain ⟨x, hx, hxip, hxseq⟩ := h
  have hne : x.ptr ≠ r.ptr := fun he => Nat.ne_of_lt (hs.lt x hx) (he.trans hptr)
  refine ⟨x, ?_, hxip, hxseq⟩
  refine List.mem_map.2 ⟨x, ?_, if_neg hne⟩
  unfold created
  dsimp only
  split
  · exact hx
  · exact mem_placeRoute.2 (.inr hx)

/-- Entries for other addresses go. -/
theorem filter (h : Serves d s) {keep : Route → Bool} (hroutes : t.routes = s.routes.filter keep)
    (hkeep : ∀ x ∈ s.routes, x.ip = d.ip → keep x = true) : Serves d t := by
  obtain ⟨x, hx, hip, hseq⟩ := h
  exact ⟨x, hroutes ▸ List.mem_filter.2 ⟨hx, hkeep x hx hip⟩, hip, hseq⟩

theorem broken (h : Serves d s) (hs : ∀ r ∈ s.routes, r.seq ≤ seqLimit) {ip : U32}
    (hl : Broken clk ip s.routes t.routes) : Serves d t := by
  obtain ⟨r, hr, hip, hseq⟩ := h
  obtain ⟨y, hy, hry⟩ := exists_right_of_forall₂ hl hr
  rcases hry with rfl | ⟨-, -, -, rfl⟩
  · exact ⟨y, hy, hip, hseq⟩
  · have hle := hs r hr
    refine ⟨_, hy, hip, ?_⟩
    show d.seq ≤ r.seq + 1
    unfold seqLimit at hle
    bv_omega

end Serves

/-! ## Changes of an entry -/

theorem Route.not_stale_of_fresh {n : ℕ} (h : r.lifetime = clk.now + n)
    (hn : n < 2 ^ 31) : r.stale clk = false := by
  rw [stale, h, timeBefore_add_self hn]
  rfl

theorem Route.refresh_of_fresh {n : ℕ} (h : r.lifetime = clk.now + n)
    (hn : n < 2 ^ 31) : r.refresh clk = r := by
  rw [refresh, not_stale_of_fresh h hn]
  rfl

/-- A lapsed route binds nobody. -/
theorem Route.Sound.of_invalid (h : r.Plain p) (hv : r.routeValid = false) : r.Sound p clk τ s :=
  ⟨h, fun hvalid => absurd (hv.symm.trans hvalid) Bool.false_ne_true⟩

theorem Route.Plain.congr {r' : Route} (h : r.Plain p) (hip : r'.ip = r.ip)
    (hmask : r'.netmask = r.netmask) (hnext : r'.nextHop = r.nextHop)
    (hself : r'.selfRoute = r.selfRoute) : r'.Plain p where
  ip_ne := hip ▸ h.ip_ne
  mask := hself ▸ hmask ▸ h.mask
  direct := by
    rw [hself, hip, hnext]
    exact h.direct

theorem Route.Sound.congr {r' : Route} (h : r.Sound p clk τ s) (hip : r'.ip = r.ip)
    (hmask : r'.netmask = r.netmask) (hnext : r'.nextHop = r.nextHop)
    (hself : r'.selfRoute = r.selfRoute) (hvalid : r'.routeValid = r.routeValid)
    (hseq : r'.nextHop ≠ r'.ip → r'.seq = r.seq) : r'.Sound p clk τ s where
  toPlain := h.toPlain.congr hip hmask hnext hself
  indirect hv hhop := by
    have hq := hseq hhop
    have hold := h.indirect (hvalid ▸ hv) (by rwa [← hnext, ← hip])
    unfold Route.Stays Route.IsNew at hold ⊢
    rwa [hip, hnext, hq]

/-- An entry for an own address, whose route is direct, may be given any number. -/
theorem Route.Sound.renumber (h : r.Sound p clk τ s)
    (hself : r.selfRoute = true ∨ r.ip = p.myIp) (q id : U32) :
    Route.Sound p clk τ s { r with seq := q, rreqId := id } :=
  h.congr rfl rfl rfl rfl rfl fun hhop => absurd (h.direct hself) hhop

namespace Route.Steady

theorem refresh (h : r.Steady p clk τ s) : (r.refresh clk).Steady p clk τ s := by
  rcases r.refresh_eq_or clk with he | ⟨hstale, he⟩
  · rwa [he]
  · have hlapsed := h.lapsed
    rw [he] at hlapsed ⊢
    have hplain : (r.expire clk).Plain p := h.toPlain.congr rfl rfl rfl rfl
    have hlt := h.stale hstale
    refine ⟨.of_invalid hplain rfl, ?_, fun hs => ?_, fun hτ _ hhop => hlapsed hτ rfl hhop, h.hop⟩
    · show r.seq + 1 ≤ seqLimit
      unfold seqLimit at hlt ⊢
      bv_omega
    · exact absurd hs (by simp [Route.stale, Route.expire])

/-- A route that has just been entered. -/
theorem fresh (h : r.Sound p clk τ s) (hvalid : r.routeValid = true) (hle : r.seq ≤ seqLimit)
    (hlife : r.lifetime = clk.now + activeRouteTimeout) (hτ : ¬∃ m, τ.type = .packet (.rerr m)) :
    r.Steady p clk τ s where
  toSound := h
  high := hle
  stale hstale := by
    rw [Route.not_stale_of_fresh hlife (by decide)] at hstale
    exact Bool.noConfusion hstale
  lapsed _ hinvalid := by
    rw [Route.refresh_of_fresh hlife (by decide), hvalid] at hinvalid
    exact Bool.noConfusion hinvalid
  hop herr := absurd herr hτ

/-- What a handler starts with. -/
theorem start (h : r.Plain p) (hr : r ∈ s.routes) (hlt : r.seq < seqLimit) :
    r.Steady p clk τ s where
  toPlain := h
  indirect hv _ := .inl ⟨r, hr, hv, rfl, rfl, rfl⟩
  high := BitVec.le_of_lt hlt
  stale _ := hlt
  lapsed _ hv _ := ⟨r, hr, rfl, rfl, hv⟩
  hop _ := ⟨r, hr, rfl, rfl, rfl⟩

end Route.Steady

/-- A new entry does not come into the table when it is for the address 0. -/
theorem mem_putNew (hs : Distinct s) {ip : U32} (hptr : r.ptr = s.nextPtr)
    (hx : x ∈ (putRoute r (created ip s)).routes) : x = r ∧ ip ≠ 0 ∨ x ∈ s.routes := by
  rcases mem_putRoute hx with ⟨rfl, y, hy, he⟩ | ⟨hx, hne⟩
  · refine .inl ⟨rfl, fun hzero => ?_⟩
    unfold created at hy
    rw [if_pos hzero] at hy
    exact absurd (he.trans hptr) (Nat.ne_of_lt (hs.lt y hy))
  · rcases mem_created hx with rfl | hx
    · exact absurd hptr.symm hne
    · exact .inr hx

namespace Kept

variable {Δ : List AodvDst}

theorem upheld (h : Kept p clk τ Δ s s₁) : Upheld p clk τ Δ s s₁ :=
  ⟨h.toOrdered, fun r hr => (h.steady r hr).toSound, h.serves⟩

theorem congr (h : Kept p clk τ Δ s s₁) (hroutes : t.routes = s₁.routes)
    (hnext : t.nextPtr = s₁.nextPtr) :
    Kept p clk τ Δ s t :=
  ⟨h.toOrderedFrom.congr hroutes hnext, hroutes ▸ h.steady,
    fun d hd => (h.serves d hd).congr hroutes⟩

theorem search (h : Kept p clk τ Δ s s₁) (ip : U32) : Kept p clk τ Δ s (searched clk ip s₁) where
  toOrderedFrom := h.toOrderedFrom.search ip
  steady r hr := by
    obtain ⟨x, hx, hxr⟩ := exists_left_of_forall₂ marked_searched hr
    rcases hxr with rfl | rfl
    · exact h.steady r hx
    · exact (h.steady x hx).refresh
  serves d hd := (h.serves d hd).search (fun r hr => (h.steady r hr).stale) ip

theorem putOf (h : Kept p clk τ Δ s s₁) {r' : Route} (hr : r ∈ s₁.routes) (hptr : r'.ptr = r.ptr)
    (hip : r'.ip = r.ip) (hmask : r'.netmask = r.netmask) (hnew : r'.Steady p clk τ s)
    (hseq : r.seq ≤ r'.seq ∨ ∀ d ∈ Δ, r.ip = d.ip → d.seq ≤ r'.seq) :
    Kept p clk τ Δ s (putRoute r' s₁) where
  toOrderedFrom := h.toOrderedFrom.putOf hr hptr hip hmask
  steady x hx := by
    rcases mem_putRoute hx with ⟨rfl, -⟩ | ⟨hx, -⟩
    · exact hnew
    · exact h.steady x hx
  serves d hd := (h.serves d hd).putOf h.distinct hr hptr hip fun hrd =>
    hseq.imp id fun hall => hall d hd hrd

theorem putNew (h : Kept p clk τ Δ s s₁) {ip : U32} (hip : ip ∉ s₁.routes.map Route.ip)
    (hptr : r.ptr = s₁.nextPtr) (hrip : r.ip = ip) (hmask : r.netmask = broadcastIp)
    (hnew : ip ≠ 0 → r.Steady p clk τ s) :
    Kept p clk τ Δ s (putRoute r (created ip s₁)) where
  toOrderedFrom := h.toOrderedFrom.putNew hip hptr hrip hmask
  steady x hx := by
    rcases mem_putNew h.distinct hptr hx with ⟨rfl, hzero⟩ | hx
    · exact hnew hzero
    · exact h.steady x hx
  serves d hd := (h.serves d hd).putNew h.distinct hptr

/-- An entry with the address of one that has stood in the table before is for the same
destination. -/
theorem ip_eq (h : Kept p clk τ Δ s s₁) (hs : Distinct s) (hr : r ∈ s.routes) (hx : x ∈ s₁.routes)
    (hptr : x.ptr = r.ptr) : x.ip = r.ip := by
  rcases h.stems x hx with ⟨y, hy, hyptr, hyip, -⟩ | ⟨hle, -⟩
  · rw [← hyip, hs.eq_of_ptr hy hr (hyptr.trans hptr)]
  · exact absurd (hs.lt r hr) (Nat.not_lt.2 (hptr ▸ hle))

/-- A write to an entry that has stood in the table before. -/
theorem put_old (h : Kept p clk τ Δ s s₁) (hs : Distinct s) {r' : Route} (hr : r ∈ s.routes)
    (hptr : r'.ptr = r.ptr) (hip : r'.ip = r.ip) (hmask : r'.netmask = r.netmask)
    (hnew : r'.Steady p clk τ s) (hseq : ∀ d ∈ Δ, r.ip = d.ip → d.seq ≤ r'.seq) :
    Kept p clk τ Δ s (putRoute r' s₁) where
  toOrderedFrom := h.toOrderedFrom.put_old hs hr hptr hip hmask
  steady x hx := by
    rcases mem_putRoute hx with ⟨rfl, -⟩ | ⟨hx, -⟩
    · exact hnew
    · exact h.steady x hx
  serves d hd := by
    obtain ⟨x, hx, hxip, hxseq⟩ := h.serves d hd
    refine ⟨if x.ptr = r'.ptr then r' else x, List.mem_map_of_mem hx, ?_⟩
    split
    · rename_i he
      have hrd : r.ip = d.ip := (h.ip_eq hs hr hx (he.trans hptr)).symm.trans hxip
      exact ⟨hip.trans hrd, hseq d hd hrd⟩
    · exact ⟨hxip, hxseq⟩

/-- Nobody relies on the entry that goes. -/
theorem filter (h : Kept p clk τ Δ s s₁) (hs : Distinct s) (hr : r ∈ s.routes)
    (hΔ : ∀ d ∈ Δ, d.ip ≠ r.ip) (hroutes : t.routes = s₁.routes.filter fun x => x.ptr != r.ptr)
    (hnext : t.nextPtr = s₁.nextPtr) :
    Kept p clk τ Δ s t where
  toOrderedFrom := h.toOrderedFrom.filter hroutes hnext
  steady x hx := h.steady x (by rw [hroutes] at hx; exact (List.mem_filter.1 hx).1)
  serves d hd := (h.serves d hd).filter hroutes fun x hx hip => by
    rw [bne_iff_ne]
    exact fun hptr => hΔ d hd (hip.symm.trans (h.ip_eq hs hr hx hptr))

end Kept

namespace Upheld

variable {Δ : List AodvDst}

theorem congr (h : Upheld p clk τ Δ s s₁) (hroutes : t.routes = s₁.routes)
    (hnext : t.nextPtr = s₁.nextPtr) :
    Upheld p clk τ Δ s t :=
  ⟨h.toOrdered.congr hroutes hnext, hroutes ▸ h.sound, fun d hd => (h.serves d hd).congr hroutes⟩

theorem putOf (h : Upheld p clk τ Δ s s₁) {r' : Route} (hr : r ∈ s₁.routes) (hptr : r'.ptr = r.ptr)
    (hip : r'.ip = r.ip) (hnew : r'.Sound p clk τ s)
    (hseq : r.seq ≤ r'.seq ∨ ∀ d ∈ Δ, r.ip = d.ip → d.seq ≤ r'.seq) :
    Upheld p clk τ Δ s (putRoute r' s₁) where
  toOrdered := h.toOrdered.putOf hr hptr hip
  sound x hx := by
    rcases mem_putRoute hx with ⟨rfl, -⟩ | ⟨hx, -⟩
    · exact hnew
    · exact h.sound x hx
  serves d hd := (h.serves d hd).putOf h.distinct hr hptr hip fun hrd =>
    hseq.imp id fun hall => hall d hd hrd

theorem putNew (h : Upheld p clk τ Δ s s₁) {ip : U32} (hip : ip ∉ s₁.routes.map Route.ip)
    (hptr : r.ptr = s₁.nextPtr) (hrip : r.ip = ip) (hnew : ip ≠ 0 → r.Sound p clk τ s) :
    Upheld p clk τ Δ s (putRoute r (created ip s₁)) where
  toOrdered := h.toOrdered.putNew hip hptr hrip
  sound x hx := by
    rcases mem_putNew h.distinct hptr hx with ⟨rfl, hzero⟩ | hx
    · exact hnew hzero
    · exact h.sound x hx
  serves d hd := (h.serves d hd).putNew h.distinct hptr

/-- The entries through a neighbour are marked. -/
theorem broken (h : Kept p clk τ Δ s s₁) {brkDstIp : U32}
    (hl : Broken clk brkDstIp s₁.routes t.routes) (hnext : t.nextPtr = s₁.nextPtr) :
    Upheld p clk τ Δ s t where
  toOrdered := h.toOrdered.broken hl hnext
  sound y hy := by
    obtain ⟨x, hx, hxy⟩ := exists_left_of_forall₂ hl hy
    have hsound := (h.steady x hx).toSound
    rcases hxy with rfl | ⟨-, -, -, rfl⟩
    · exact hsound
    · exact .of_invalid (hsound.toPlain.congr rfl rfl rfl rfl) rfl
  serves d hd := (h.serves d hd).broken (fun r hr => (h.steady r hr).high) hl

theorem filter (h : Upheld p clk τ Δ s s₁) (hx : x ∈ s₁.routes) (hΔ : ∀ d ∈ Δ, d.ip ≠ x.ip)
    (hroutes : t.routes = s₁.routes.filter fun y => y.ptr != x.ptr)
    (hnext : t.nextPtr = s₁.nextPtr) :
    Upheld p clk τ Δ s t where
  toOrdered := h.toOrdered.filter hroutes hnext
  sound y hy := h.sound y (by rw [hroutes] at hy; exact (List.mem_filter.1 hy).1)
  serves d hd := (h.serves d hd).filter hroutes fun y hy hip => by
    rw [bne_iff_ne]
    exact fun hptr => hΔ d hd (by rw [← hip, h.distinct.eq_of_ptr hy hx hptr])

end Upheld

/-! ## The handlers -/

section Handlers

variable {Δ : List AodvDst}

theorem Ordered.eq_of_ip (h : Ordered s) (hr : r ∈ s.routes) (hx : x ∈ s.routes)
    (hip : x.ip = r.ip) : x = r :=
  Option.some.inj ((h.entryFor_of_mem hx).symm.trans (hip ▸ h.entryFor_of_mem hr))

theorem Ordered.foundRoute_of_mem (h : Ordered s) (clk : Clock) (hx : x ∈ s.routes) :
    foundRoute clk x.ip s = some (x.refresh clk) := by
  rw [foundRoute_entryFor, h.entryFor_of_mem hx]
  rfl

theorem Ordered.not_mem_of_none {ip : U32} (h : Ordered s) (hf : foundRoute clk ip s = none) :
    ip ∉ s.routes.map Route.ip :=
  h.not_mem_of_found clk fun r hr => by simp [hf] at hr

/-- Only the route of a subnet is found for another address. -/
theorem Route.Plain.ip_eq (h : r.Plain p) (hself : r.selfRoute = false) {ip : U32}
    (hf : foundRoute clk ip s = some r) : r.ip = ip :=
  (compare_of_broadcast (h.mask hself)).1 (mem_of_foundRoute hf).1

theorem Update.lt_of_accepted {u : Update} (hr : u.refused r = false) (hle : r.seq ≤ seqLimit)
    (hlt : u.seq < seqLimit) : r.seq < u.seq := by
  have hbefore : Serial.before r.seq u.seq = true := by
    rw [← Bool.not_eq_false, ← refused_iff, hr]
    exact Bool.false_ne_true
  rw [Serial.before_iff_toNat] at hbefore
  rw [BitVec.le_def] at hle
  rw [BitVec.lt_def] at hlt ⊢
  have hlimit : seqLimit.toNat = 2147483646 := rfl
  omega

theorem seq_le_of_refused {u : Update} (hr : u.refused r = true) (hle : r.seq ≤ seqLimit)
    (hlt : u.seq < seqLimit) :
    u.seq ≤ r.seq := by
  have hbefore := (refused_iff u r).1 hr
  rw [← Bool.not_eq_true, Serial.before_iff_toNat] at hbefore
  rw [BitVec.le_def] at hle ⊢
  rw [BitVec.lt_def] at hlt
  have hlimit : seqLimit.toNat = 2147483646 := rfl
  omega

theorem Update.not_refused_of_accepted {u : Update} (h : u.accepted clk s = true)
    (hf : foundRoute clk u.ip s = some r) : u.refused r = false := by
  rw [Update.accepted, hf, Option.all_some, Bool.and_eq_true, Bool.not_eq_true'] at h
  exact h.2

theorem Task.update_cases {u : Update} (h : τ.update clk s = some u) :
    (∃ m, τ.type = .packet (.rreq m) ∧ u = m.update τ) ∨
      ∃ m, τ.type = .packet (.rrep m) ∧ m.srcIp ≠ m.dstIp ∧ u = m.update τ := by
  unfold Task.update at h
  split at h
  · split at h
    · cases h
    · exact .inl ⟨_, ‹_›, (Option.some.inj h).symm⟩
  · split at h
    · cases h
    · exact .inr ⟨_, ‹_›, ‹_›, (Option.some.inj h).symm⟩
  · cases h

/-- The update takes up what the message offers, through the node that it comes from. -/
theorem Task.update_offer {u : Update} (h : τ.update clk s = some u) :
    u.nextHop = τ.srcIp ∧ ∃ msg, τ.type = .packet msg ∧
    msg.offer = some { ip := u.ip, seq := u.seq } := by
  rcases Task.update_cases h with ⟨m, hτ, rfl⟩ | ⟨m, hτ, hne, rfl⟩
  · exact ⟨rfl, _, hτ, rfl⟩
  · exact ⟨rfl, _, hτ, if_neg hne⟩

theorem Task.Careful.safe {u : Update} (h : τ.Careful p mem clk Δ s) (hu : τ.update clk s = some u)
    (hv : validAodvNeigh clk τ.srcIp s = true) : u.Safe p mem clk s := by
  rcases Task.update_cases hu with ⟨m, hτ, rfl⟩ | ⟨m, hτ, hne, rfl⟩
  · rw [Task.Careful, hτ] at h
    exact (h.2 (by rw [hu]; rfl) hv).1
  · rw [Task.Careful, hτ] at h
    dsimp only at h
    rw [if_neg hne] at h
    exact h hv

theorem Update.valid_of_accepted {u : Update} (h : u.accepted clk s = true) :
    validAodvNeigh clk u.nextHop s = true :=
  (Bool.and_eq_true_iff.1 h).1

/-- A route that is accepted is newer than the entry for its address. -/
theorem Update.not_serves {u : Update} (h : u.accepted clk s = true) (hs : Ordered s)
    (hlow : ∀ r ∈ s.routes, r.seq < seqLimit) (hu : u.seq < seqLimit) :
    ¬Serves { ip := u.ip, seq := u.seq } s := by
  rintro ⟨x, hx, hip, hle⟩
  have hip' : x.ip = u.ip := hip
  have hf : foundRoute clk u.ip s = some (x.refresh clk) := hip' ▸ hs.foundRoute_of_mem clk hx
  have hseq : x.seq ≤ (x.refresh clk).seq ∧ (x.refresh clk).seq ≤ seqLimit := by
    have hlt := hlow x hx
    rcases x.refresh_eq_or clk with he | ⟨-, he⟩
    · rw [he]
      exact ⟨BitVec.le_refl _, BitVec.le_of_lt hlt⟩
    · rw [he]
      show x.seq ≤ x.seq + 1 ∧ x.seq + 1 ≤ seqLimit
      unfold seqLimit at hlt ⊢
      exact ⟨by bv_omega, by bv_omega⟩
  have hlt := Update.lt_of_accepted (Update.not_refused_of_accepted h hf) hseq.2 hu
  have hle' : u.seq ≤ x.seq := hle
  have hmark := hseq.1
  bv_omega

theorem seq_le_of_seqLessOrEqual {a b : U32} (h : seqLessOrEqual a b = true) (ha : a ≤ seqLimit)
    (hb : b < seqLimit) : a ≤ b := by
  have hle : (a - b).toInt ≤ 0 := by simpa [seqLessOrEqual] using h
  rw [BitVec.toInt_eq_toNat_cond, BitVec.toNat_sub] at hle
  rw [BitVec.le_def] at ha ⊢
  rw [BitVec.lt_def] at hb
  have hlimit : seqLimit.toNat = 2147483646 := rfl
  have hlt := a.isLt
  split at hle <;> omega

theorem Broken.ip_eq {brkDstIp : U32} {l l' : List Route} (hl : Broken clk brkDstIp l l')
    (hs : Distinct s) (hroutes : l = s.routes) (hr : r ∈ s.routes) (hx : x ∈ l')
    (hptr : x.ptr = r.ptr) :
    x.ip = r.ip := by
  subst hroutes
  obtain ⟨y, hy, hxy⟩ := exists_left_of_forall₂ hl hx
  have hyx : y.ptr = x.ptr ∧ y.ip = x.ip := by
    rcases hxy with rfl | ⟨-, -, -, rfl⟩ <;> exact ⟨rfl, rfl⟩
  rw [← hyx.2, hs.eq_of_ptr hy hr (hyx.1.trans hptr)]

/-- A request numbers the entry for the node's own address. -/
theorem Upheld.number (h : Upheld p clk τ Δ s s₁) (hle : r.seq ≤ seqLimit) {t : Router}
    (hf : foundRoute clk p.myIp t = some r) (hr : r ∈ s₁.routes) :
    Upheld p clk τ Δ s (putRoute r.numbered s₁) := by
  have hold := h.sound r hr
  have hself : r.selfRoute = true ∨ r.ip = p.myIp := by
    cases hself : r.selfRoute with
    | true => exact .inl rfl
    | false => exact .inr (hold.toPlain.ip_eq hself hf)
  refine h.putOf hr rfl rfl (hold.renumber hself _ _) (.inl ?_)
  show r.seq ≤ r.seq + 1
  unfold seqLimit at hle
  bv_omega

/-- The writes of a careful handler. -/
theorem kept_writes (hs : Ordered s) (hplain : ∀ r ∈ s.routes, r.Plain p)
    (hlow : ∀ r ∈ s.routes, r.seq < seqLimit)
    (hΔ : τ.type = .cleanup ∨ τ.type = .routeCleanup → ∀ d ∈ Δ, Serves d s)
    (hown : τ.type = .resendRreq → τ.srcIp = p.myIp) (hsub : τ.NotForSubnet p mem clk s)
    (hcare : τ.Careful p mem clk Δ s) :
    HandlerWrites p mem clk τ s (Kept p clk τ Δ s) (Upheld p clk τ Δ s) := by
  constructor
  case congr => exact fun h ht => h.congr (congrArg Prod.fst ht) (congrArg (·.2.1) ht)
  case congrEnd => exact fun h ht => h.congr (congrArg Prod.fst ht) (congrArg (·.2.1) ht)
  case done => exact fun h => h.upheld
  case search => exact fun ip _ h => h.search ip
  case update =>
    intro u r s₁ hu hacc hf hr h
    have hv := Update.valid_of_accepted hacc
    rw [(Task.update_offer hu).1] at hv
    obtain ⟨hlimit, hsafe⟩ := hcare.safe hu hv
    rw [hf] at hsafe
    have hlt :=
      Update.lt_of_accepted (Update.not_refused_of_accepted hacc hf) (h.steady r hr).high hlimit
    have hold := (h.steady r hr).toPlain
    have hnew : (u.route clk r).IsNew clk τ s :=
      ⟨u, hu, hsafe.1, rfl, rfl, Update.not_serves hacc hs hlow hlimit⟩
    have hput : Kept p clk τ Δ s (putRoute (u.route clk r) s₁) := by
      refine h.putOf hr rfl rfl rfl (.fresh ⟨⟨hold.ip_ne, hold.mask, fun hself => ?_⟩,
        fun _ _ => .inr hnew⟩ rfl
        (BitVec.le_of_lt hlimit) rfl (not_error_of_update hu).1) (.inl (BitVec.le_of_lt hlt))
      obtain ⟨hno, hown⟩ := hsafe.2 hacc
      exact absurd hself (by simp [Update.route, hno, hsafe.1, hown])
    exact hput.congr rfl rfl
  case updateNew =>
    intro u s₁ hu hacc hf hf₁ h
    have hv := Update.valid_of_accepted hacc
    rw [(Task.update_offer hu).1] at hv
    obtain ⟨hlimit, hsafe⟩ := hcare.safe hu hv
    rw [hf] at hsafe
    have hnew : (u.route clk (newRoute s₁.nextPtr u.ip)).IsNew clk τ s :=
      ⟨u, hu, rfl, rfl, rfl, Update.not_serves hacc hs hlow hlimit⟩
    have hput : Kept p clk τ Δ s (putRoute (u.route clk (newRoute s₁.nextPtr u.ip))
        (created u.ip s₁)) := by
      refine h.putNew (h.toOrdered.not_mem_of_none hf₁) rfl rfl rfl fun hzero => .fresh
        ⟨⟨hzero, fun _ => rfl, fun hself => (hself.elim Bool.noConfusion hsafe.2).elim⟩,
        fun _ _ => .inr hnew⟩ rfl
        (BitVec.le_of_lt hlimit) rfl (not_error_of_update hu).1
    exact hput.congr rfl rfl
  case hello =>
    intro m n r s₁ hheard hn hf hr h
    obtain ⟨hτ, hm⟩ := Task.heard_type hheard
    rw [Task.Careful, hτ] at hcare
    dsimp only at hcare
    rw [if_pos hm] at hcare
    obtain ⟨hip, hle⟩ := hcare hheard r hf
    have hold := (h.steady r hr).toPlain
    have hdirect : n.ip = r.ip := hn.trans hip.symm
    have hput : Upheld p clk τ Δ s (putRoute (n.route clk m r) s₁) := by
      refine h.upheld.putOf hr rfl rfl ⟨⟨hold.ip_ne, hold.mask, fun _ => hdirect⟩,
        fun _ hhop => ?_⟩ (.inr ?_)
      · exact absurd hdirect hhop
      · exact fun d hd hrd => hle d hd (hrd.symm.trans hip)
    exact hput.congr rfl rfl
  case helloNew =>
    intro m n s₁ hheard hn hf hf₁ h
    have hput : Upheld p clk τ Δ s
        (putRoute (n.route clk m (newRoute s₁.nextPtr m.dstIp)) (created m.dstIp s₁)) := by
      refine h.upheld.putNew (h.toOrdered.not_mem_of_none hf₁) rfl rfl fun hzero =>
        ⟨⟨hzero, fun _ => rfl,
        fun _ => hn⟩, fun _ hhop => absurd hn hhop⟩
    exact hput.congr rfl rfl
  case revive =>
    intro m r s₁ hτ hupdate hvalid hgateway houtside hf hr h
    rw [Task.Careful, hτ] at hcare
    obtain ⟨-, hrevive⟩ := hcare.2 hupdate hvalid
    have hold := h.steady r hr
    refine h.putOf hr rfl rfl rfl (.fresh ⟨hold.toPlain.congr rfl rfl rfl rfl, fun _ hhop => ?_⟩
      rfl hold.high rfl
      (not_error_of_type hτ (by simp))) (.inl (BitVec.le_refl _))
    cases hv : r.routeValid with
    | true => exact hold.indirect hv hhop
    | false =>
      have hself : r.selfRoute = false := by
        rw [← Bool.not_eq_true]
        exact fun hself => hhop (hold.direct (.inl hself))
      have hip := hold.toPlain.ip_eq hself hf
      have hlapsed : (r.refresh clk).routeValid = false := by
        rw [Route.refresh, Route.stale, hv, Bool.and_false, if_neg Bool.false_ne_true, hv]
      obtain ⟨x, hx, hxip, hxhop, hxv⟩ := hold.lapsed ⟨m, hτ⟩ hlapsed hhop
      have hfx : foundRoute clk m.dstIp s = some (x.refresh clk) :=
        hip ▸ hxip ▸ hs.foundRoute_of_mem clk hx
      rcases hrevive hgateway houtside _ hfx with hrv | hdirect
      · exact Bool.noConfusion (hxv.symm.trans hrv)
      · rw [Route.nextHop_refresh, Route.ip_refresh, hxhop, hxip] at hdirect
        exact absurd hdirect hhop
  case ownSeq =>
    intro m r s₁ hτ hr hself hle h
    rw [Task.Careful, hτ] at hcare
    have hlimit := hcare.1
    have hold := h.steady r hr
    have hseq := seq_le_of_seqLessOrEqual hle hold.high hlimit
    have hplus : m.dstSeq + 1 ≤ seqLimit ∧ r.seq ≤ m.dstSeq + 1 := by
      unfold seqLimit at hlimit ⊢
      exact ⟨by bv_omega, by bv_omega⟩
    refine h.putOf hr rfl rfl rfl ⟨hold.renumber (.inl hself) _ _, hplus.1, fun hstale => ?_,
      fun hm hv hhop => ?_,
      fun herr => absurd herr (not_error_of_type hτ (by simp))⟩ (.inl hplus.2)
    · simp [Route.stale, hself] at hstale
    · rw [Route.refresh_of_self (by exact hself)] at hv
      exact hold.lapsed hm (by rwa [Route.refresh_of_self hself]) hhop
  case gateway =>
    intro m r s₁ hτ hupdate hvalid hmakes hr h
    have hle : r.seq ≤ seqLimit := by
      rcases mem_created hr with rfl | hr
      · show (0 : U32) ≤ seqLimit
        decide
      · exact (h.steady r hr).high
    refine h.putNew (h.toOrderedFrom.not_mem_of_makes hτ hsub hupdate hvalid hmakes) rfl rfl rfl
      fun hzero => .fresh
      ⟨⟨hzero, fun _ => rfl, fun _ => rfl⟩, fun _ hhop => absurd rfl hhop⟩ rfl hle rfl
      (not_error_of_type hτ (by simp))
  case rerr =>
    intro m e r s₁ hτ he hf hr hself hhop h
    rw [Task.Careful, hτ] at hcare
    obtain ⟨hlimits, hmem, hdemands⟩ := hcare
    have hlimit := hlimits e (List.mem_of_mem_take he)
    have hold := h.steady r hr
    have hip := hold.toPlain.ip_eq hself hf
    have hrelied : ∀ d ∈ Δ, r.ip = d.ip → d.seq ≤ e.seq := fun d hd hrd => by
      obtain ⟨x, hx, hxip, hxhop, hxself⟩ := hold.hop ⟨m, hτ⟩
      exact hdemands e he x hx (hxip.trans hip) (hxself.trans hself) (hxhop.trans hhop) d hd
        (hrd.symm.trans hip)
    have hrreq : ¬∃ m, τ.type = .packet (.rreq m) := by simp [hτ]
    constructor
    · intro hguard
      have hv : r.routeValid = false := by
        rw [← Bool.not_eq_true]
        intro hv
        obtain ⟨i, hi, hfail⟩ := hguard hv
        exact Bool.noConfusion (hfail.symm.trans (hmem i hi))
      exact h.putOf hr rfl rfl rfl ⟨.of_invalid (hold.toPlain.congr rfl rfl rfl rfl) hv,
        BitVec.le_of_lt hlimit,
        fun _ => hlimit, fun hm => absurd hm hrreq, hold.hop⟩ (.inr hrelied)
    · intro hv
      have hplus : e.seq + 1 ≤ seqLimit ∧ e.seq ≤ e.seq + 1 := by
        unfold seqLimit at hlimit ⊢
        exact ⟨by bv_omega, by bv_omega⟩
      exact h.putOf hr rfl rfl rfl ⟨.of_invalid (hold.toPlain.congr rfl rfl rfl rfl) rfl, hplus.1,
        fun hstale => by simp [Route.stale, Route.expire] at hstale, fun hm =>
          absurd hm hrreq, hold.hop⟩
        (.inr fun d hd hrd => BitVec.le_trans (hrelied d hd hrd) hplus.2)
  case flush =>
    intro r s₁ hτ hr hdue hself hv h
    have hlimit := hlow r hr
    have hplus : r.seq + 1 ≤ seqLimit ∧ r.seq ≤ r.seq + 1 := by
      unfold seqLimit at hlimit ⊢
      exact ⟨by bv_omega, by bv_omega⟩
    refine h.put_old hs.distinct hr rfl rfl rfl
      ⟨.of_invalid ((hplain r hr).congr rfl rfl rfl rfl) rfl, hplus.1,
      fun hstale => by simp [Route.stale, Route.expire] at hstale, fun hm => ?_, fun _ =>
        ⟨r, hr, rfl, rfl, rfl⟩⟩
      fun d hd hrd => ?_
    · obtain ⟨m, hm⟩ := hm
      rcases hτ with hτ | hτ <;> simp [hm] at hτ
    · obtain ⟨x, hx, hxip, hxseq⟩ := hΔ hτ d hd
      rw [hs.eq_of_ip hr hx (hxip.trans hrd.symm)] at hxseq
      exact BitVec.le_trans hxseq hplus.2
  case flushRemove =>
    intro r s₁ hτ hr hdue hself hv h
    have hnone : ∀ d ∈ Δ, d.ip ≠ r.ip := by
      rcases hτ with hτ | hτ <;> rw [Task.Careful, hτ] at hcare <;> exact hcare r hr hdue hself hv
    exact h.filter hs.distinct hr hnone rfl rfl
  case drop =>
    intro r x l s₁ hτ hn hf hhop hr h hl hx hptr hv
    rw [Task.Careful, hτ] at hcare
    have hnone := hcare hn r hf hhop
    have hbroken : Upheld p clk τ Δ s
      { deleteKernelRouteEntry r.ip r.netmask s₁ with routes := l } := .broken h hl rfl
    have hip := hl.ip_eq h.distinct rfl hr hx hptr
    exact hbroken.putOf hx rfl rfl
      (.of_invalid ((hbroken.sound x hx).toPlain.congr rfl rfl rfl rfl) rfl)
      (.inr fun d hd hrd => absurd (hrd.symm.trans hip) (hnone d hd))
  case dropRemove =>
    intro r x l s₁ hτ hn hf hhop hr h hl hx hptr hv
    rw [Task.Careful, hτ] at hcare
    have hnone := hcare hn r hf hhop
    have hbroken : Upheld p clk τ Δ s
      { deleteKernelRouteEntry r.ip r.netmask s₁ with routes := l } := .broken h hl rfl
    have hip := hl.ip_eq h.distinct rfl hr hx hptr
    exact hbroken.filter hx (hip ▸ hnone) rfl rfl
  case number =>
    intro r s₁ hτ hf hr h
    exact h.upheld.number (h.steady r hr).high (hown hτ ▸ hf) hr

end Handlers

end MobileCloudCaching.Aodv
