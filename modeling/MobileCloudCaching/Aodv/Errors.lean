import MobileCloudCaching.Aodv.Thread

/-!
# Route errors between two nodes (`rerr.c`)

`gen_rerr` marks the routes through a lost next hop and lists them while it does, so that memory
may fail when some of them are marked already.  `send_rerr` puts as many destinations into the
packet as are listed, but their number into eight bits, by which `valid_aodv_packet` checks the
length and `recv_rerr` goes through them.
-/

namespace MobileCloudCaching.Aodv

open Octets

variable {mem : Mem} {clk : Clock} {brkDstIp : U32} {s : Router}

/-! ## The routes of an error -/

/-- The test of `gen_rerr`. -/
def Route.leadsThrough (brkDstIp : U32) (r : Route) : Bool :=
  r.nextHop = brkDstIp ∧ r.selfRoute = false

/-- What `gen_rerr` lists of an entry. -/
def Route.listing (r : Route) : AodvDst := { ip := r.ip, seq := r.seq }

/-- The entry after `gen_rerr`. -/
def Route.afterRerr (clk : Clock) (brkDstIp : U32) (r : Route) : Route :=
  if r.leadsThrough brkDstIp ∧ r.routeValid then r.expire clk else r

/-- The entries that `gen_rerr` is to report. -/
def lostRoutes (brkDstIp : U32) (l : List Route) : List Route :=
  l.filter (Route.leadsThrough brkDstIp)

theorem breakRoutes_of_mem {l : List Route} {bad : List AodvDst}
    (h : ∀ i, bad.length ≤ i → i < bad.length + (lostRoutes brkDstIp l).length →
      mem .rerrRoute i = true) :
    breakRoutes mem clk brkDstIp l bad =
      (true, l.map (Route.afterRerr clk brkDstIp),
      ((lostRoutes brkDstIp l).map Route.listing).reverse ++ bad) := by
  induction l generalizing bad with
  | nil => rfl
  | cons r l ih =>
    rw [breakRoutes]
    by_cases hr : r.nextHop = brkDstIp ∧ r.selfRoute = false
    · have hlost : lostRoutes brkDstIp (r :: l) = r :: lostRoutes brkDstIp l :=
        List.filter_cons_of_pos (by simpa [Route.leadsThrough] using hr)
      have hafter : r.afterRerr clk brkDstIp = if r.routeValid then r.expire clk else r := by
        simp [Route.afterRerr, Route.leadsThrough, hr]
      rw [hlost] at h ⊢
      have hhead : mem .rerrRoute bad.length = true := h _ le_rfl (by simp)
      rw [if_pos hr, if_pos hhead, ih fun i hi hlt =>
        h i (by simp at hi; omega) (by simp at hlt ⊢; omega)]
      simp [hafter, Route.listing]
    · have hlost : lostRoutes brkDstIp (r :: l) = lostRoutes brkDstIp l :=
        List.filter_cons_of_neg (by simpa [Route.leadsThrough] using hr)
      have hafter : r.afterRerr clk brkDstIp = r := by
        rw [Route.afterRerr, if_neg]
        simpa [Route.leadsThrough] using fun h₁ h₂ => absurd ⟨h₁, h₂⟩ hr
      rw [hlost] at h ⊢
      rw [if_neg hr, ih h]
      simp [hafter]

theorem breakRoutes_of_not_mem {l : List Route} {bad : List AodvDst} {i : ℕ} (hi : bad.length ≤ i)
    (hlt : i < bad.length + (lostRoutes brkDstIp l).length) (hmem : mem .rerrRoute i = false) :
    (breakRoutes mem clk brkDstIp l bad).1 = false := by
  induction l generalizing bad with
  | nil => exact absurd hlt (by simpa [lostRoutes] using hi)
  | cons r l ih =>
    rw [breakRoutes]
    by_cases hr : r.nextHop = brkDstIp ∧ r.selfRoute = false
    · have hlost : lostRoutes brkDstIp (r :: l) = r :: lostRoutes brkDstIp l :=
        List.filter_cons_of_pos (by simpa [Route.leadsThrough] using hr)
      rw [hlost] at hlt
      rw [if_pos hr]
      by_cases hhead : mem .rerrRoute bad.length = true
      · rw [if_pos hhead]
        have hne : bad.length ≠ i := fun h => by simp [h, hmem] at hhead
        exact ih (by simp; omega) (by simp at hlt ⊢; omega)
      · rw [if_neg hhead]
    · have hlost : lostRoutes brkDstIp (r :: l) = lostRoutes brkDstIp l :=
        List.filter_cons_of_neg (by simpa [Route.leadsThrough] using hr)
      rw [hlost] at hlt
      rw [if_neg hr]
      exact ih hi hlt

theorem genRerr_of_mem (clk : Clock)
    (h : ∀ i < (lostRoutes brkDstIp s.routes).length, mem .rerrRoute i = true) :
    genRerr mem clk brkDstIp s =
      if (lostRoutes brkDstIp s.routes).length = 0 then
        { s with routes := s.routes.map (Route.afterRerr clk brkDstIp) }
      else
        sendRerr (mem .rerr 0) ((lostRoutes brkDstIp s.routes).map Route.listing).reverse
          { s with routes := s.routes.map (Route.afterRerr clk brkDstIp) } := by
  have hwalk : breakRoutes mem clk brkDstIp s.routes [] =
      (true, s.routes.map (Route.afterRerr clk brkDstIp),
      ((lostRoutes brkDstIp s.routes).map Route.listing).reverse) := by
    rw [breakRoutes_of_mem fun i _ hlt => h i (by simpa using hlt), List.append_nil]
  unfold genRerr
  simp only [hwalk, if_true, List.length_reverse, List.length_map]

theorem routeReaders_genRerr_of_not_mem {i : ℕ} (hi : i < (lostRoutes brkDstIp s.routes).length)
    (hmem : mem .rerrRoute i = false) :
    (genRerr mem clk brkDstIp s).routeReaders = s.routeReaders + 1 := by
  have hdone : (breakRoutes mem clk brkDstIp s.routes []).1 = false :=
    breakRoutes_of_not_mem (Nat.zero_le i) (by simpa using hi) hmem
  simp [genRerr, hdone]

/-! ## Shortage of memory -/

/-- The lock is released, and either one error lists all lost routes, of which those that were
valid have been marked, or nothing has happened to the routes. -/
structure Clean (clk : Clock) (brkDstIp : U32) (s t : Router) : Prop where
  unlocked : t.routeReaders = s.routeReaders
  atomic : (∃ m : Rerr, m.dsts = ((lostRoutes brkDstIp s.routes).map Route.listing).reverse ∧
      t.sent = s.sent ++
      [{ dst := broadcastIp, ttl := BitVec.ofNat 8 netDiameter, msg := .rerr m }] ∧
      t.routes = s.routes.map (Route.afterRerr clk brkDstIp)) ∨
    t.sent = s.sent ∧ t.routes = s.routes

/-- No entry changes exactly if none of the lost routes was valid. -/
theorem map_afterRerr_eq_iff (clk : Clock)
    {l : List Route} : l.map (Route.afterRerr clk brkDstIp) = l ↔
    ∀ r ∈ lostRoutes brkDstIp l, r.routeValid = false := by
  have hsame : ∀ r : Route, r.afterRerr clk brkDstIp = r ↔
      (r.leadsThrough brkDstIp = true → r.routeValid = false) := by
    intro r
    rw [Route.afterRerr]
    by_cases hr : r.leadsThrough brkDstIp = true
    · cases hvalid : r.routeValid with
      | false => simp
      | true =>
        have hexpire : (r.expire clk).routeValid = false := rfl
        simp only [hr, and_self, if_true, forall_const, Bool.true_eq_false, iff_false]
        intro he
        rw [he, hvalid] at hexpire
        cases hexpire
    · simp [hr]
  have hid : l.map (Route.afterRerr clk brkDstIp) =
      l ↔ l.map (Route.afterRerr clk brkDstIp) = l.map id := by
    rw [List.map_id]
  rw [hid, List.map_inj_left]
  simp only [id_eq, hsame, lostRoutes, List.mem_filter, and_imp]

theorem clean_genRerr_iff : Clean clk brkDstIp s (genRerr mem clk brkDstIp s) ↔
    (∀ i < (lostRoutes brkDstIp s.routes).length, mem .rerrRoute i = true) ∧
      (mem .rerr 0 = true ∨ ∀ r ∈ lostRoutes brkDstIp s.routes, r.routeValid = false) := by
  by_cases hmem : ∀ i < (lostRoutes brkDstIp s.routes).length, mem .rerrRoute i = true
  · rw [and_iff_right hmem, genRerr_of_mem clk hmem]
    by_cases hlen : (lostRoutes brkDstIp s.routes).length = 0
    · -- nothing is lost
      have hnil : lostRoutes brkDstIp s.routes = [] := List.eq_nil_of_length_eq_zero hlen
      have hnone : ∀ r ∈ lostRoutes brkDstIp s.routes, r.routeValid = false := by simp [hnil]
      rw [if_pos hlen]
      exact iff_of_true ⟨rfl, .inr ⟨rfl, (map_afterRerr_eq_iff clk).2 hnone⟩⟩ (.inr hnone)
    · rw [if_neg hlen]
      cases hrerr : mem .rerr 0 with
      | true => exact iff_of_true ⟨rfl, .inl ⟨_, rfl, rfl, rfl⟩⟩ (.inl rfl)
      | false =>
        -- the marked entries stay, and no error tells of them
        rw [← map_afterRerr_eq_iff clk]
        constructor
        · rintro ⟨-, ⟨m, -, hsent, -⟩ | ⟨-, hroutes⟩⟩
          · exact absurd (congrArg List.length hsent) (by simp [sendRerr])
          · exact .inr hroutes
        · rintro (h | h)
          · cases h
          · exact ⟨rfl, .inr ⟨rfl, h⟩⟩
  · have hfail : ∃ i, i < (lostRoutes brkDstIp s.routes).length ∧ mem .rerrRoute i = false := by
      simpa using hmem
    obtain ⟨i, hi, hfail⟩ := hfail
    refine iff_of_false (fun h => ?_) fun h => hmem h.1
    have hlock := h.unlocked
    rw [routeReaders_genRerr_of_not_mem hi hfail] at hlock
    omega

/-- A route to 10.0.0.3 through 10.0.0.2. -/
def lostRoute : Route where
  ptr := 0
  ip := 0x0A000003
  netmask := broadcastIp
  seq := 1
  metric := 2
  nextHop := 0x0A000002
  rreqId := 0
  lifetime := 1000
  dev := none
  routeValid := true
  selfRoute := false
  learned := true

/-- The first entry of the list cannot be allocated: the lock stays taken. -/
theorem not_clean_lostRoute : ¬ ∀ (mem : Mem) (clk : Clock) (brkDstIp : U32) (s : Router),
    Clean clk brkDstIp s (genRerr mem clk brkDstIp s) := by
  intro h
  have hlock := (h (fun _ _ => false) ⟨0, 0⟩ 0x0A000002 { routes := [lostRoute] }).unlocked
  exact absurd hlock (by decide +kernel)

/-- The packet cannot be allocated: the route is marked, and nobody hears of it. -/
example :
    (genRerr (fun site _ => site != .rerr) ⟨0, 0⟩ 0x0A000002 { routes := [lostRoute] }).sent = [] ∧
    (genRerr (fun site _ => site != .rerr) ⟨0, 0⟩ 0x0A000002 { routes := [lostRoute] }).routes.map
      Route.routeValid = [false] := by
  decide +kernel

/-! ## The octets of an error -/

/-- `sizeof(rerr)` -/
def Rerr.size : ℕ := 4

/-- `sizeof(aodv_dst)` -/
def AodvDst.size : ℕ := 8

/-- `rerr_size`, an `int`. -/
def rerrSize (numRoutes : ℕ) : U32 := BitVec.ofNat 32 (Rerr.size + AodvDst.size * numRoutes)

/-- The words behind the header; addresses are in network order already. -/
def Rerr.words (o : ByteOrder) (m : Rerr) : List U32 := m.dsts.flatMap fun d => [d.ip, hton o d.seq]

/-- The octets that `send_rerr` broadcasts. -/
def Rerr.octets (o : ByteOrder) (m : Rerr) : List Byte :=
  ([3, 0, 0, m.dstCount] ++ storeAll o (m.words o)).take (rerrSize m.dsts.length).toNat

/-- The case of `valid_aodv_packet` for route errors. -/
def validRerr (data : List Byte) : Bool :=
  data[3]?.any fun dstCount => data.length == Rerr.size + AodvDst.size * dstCount.toNat

/-- The `i`-th destination of an error, its number in host order. -/
def AodvDst.load (o : ByteOrder) (data : List Byte) (i : ℕ) : Option AodvDst := do
  return { ip := ← Octets.load o data (Rerr.size + AodvDst.size * i),
           seq := hton o (← Octets.load o data (Rerr.size + AodvDst.size * i + 4)) }

/-- The destinations from the `i`-th on that the loop of `recv_rerr` comes to in `n` rounds. -/
def loadDsts (o : ByteOrder) (data : List Byte) : ℕ → ℕ → Option (List AodvDst)
  | 0, _ => some []
  | n + 1, i => do return (← AodvDst.load o data i) :: (← loadDsts o data n (i + 1))

/-- The destinations that `recv_rerr` goes through; `none` when the octets end before. -/
def rerrDsts (o : ByteOrder) (data : List Byte) : Option (List AodvDst) := do
  loadDsts o data (← data[3]?).toNat 0

/-- A destination of a host of order `s`, as one of order `r` reads it. -/
def AodvDst.seen (s r : ByteOrder) (d : AodvDst) : AodvDst := { d with ip := hton r (hton s d.ip) }

section Octets

variable {o r : ByteOrder} {m : Rerr}

theorem length_words : (m.words o).length = 2 * m.dsts.length := by
  simp [Rerr.words, List.length_flatMap, Nat.mul_comm]

theorem words_of_dst {i : ℕ} {d : AodvDst} (hd : m.dsts[i]? = some d) :
    (m.words o)[2 * i]? = some d.ip ∧ (m.words o)[2 * i + 1]? = some (hton o d.seq) := by
  unfold Rerr.words
  generalize m.dsts = l at hd
  induction l generalizing i with
  | nil => simp at hd
  | cons x l ih =>
    cases i with
    | zero =>
      obtain rfl : x = d := by simpa using hd
      exact ⟨rfl, rfl⟩
    | succ i => exact ih (i := i) (by simpa using hd)

/-- An error fits into a packet unless its length wraps around. -/
theorem octets_eq (h : m.dsts.length < 2 ^ 28) : m.octets o = [3, 0, 0, m.dstCount] ++
    storeAll o (m.words o) := by
  refine List.take_of_length_le ?_
  simp only [List.length_append, length_storeAll, length_words, rerrSize, Rerr.size, AodvDst.size,
    List.length_cons, List.length_nil, BitVec.toNat_ofNat]
  omega

theorem octets_dstCount : (m.octets o)[3]? = some m.dstCount := by
  have hsize : 3 < (rerrSize m.dsts.length).toNat := by
    simp only [rerrSize, Rerr.size, AodvDst.size, BitVec.toNat_ofNat]
    omega
  rw [Rerr.octets, List.getElem?_take_of_lt hsize]
  rfl

theorem validRerr_octets (h : m.dsts.length < 2 ^ 28) :
    validRerr (m.octets o) = (m.dsts.length == m.dstCount.toNat) := by
  rw [validRerr, octets_dstCount, octets_eq h, Option.any_some, Bool.eq_iff_iff]
  simp only [List.length_append, length_storeAll, length_words, Rerr.size, AodvDst.size,
    List.length_cons, List.length_nil, beq_iff_eq]
  omega

/-- The check on octets is the one on messages. -/
theorem validAodvPacket_rerr (h : m.dsts.length < 2 ^ 28) :
    (validAodvPacket (.rerr m) s).1 = validRerr (m.octets o) := (validRerr_octets h).symm

theorem load_octets (h : m.dsts.length < 2 ^ 28) {i : ℕ} {d : AodvDst} (hd : m.dsts[i]? = some d) :
    AodvDst.load r (m.octets o) i = some (d.seen o r) := by
  obtain ⟨hip, hseq⟩ := words_of_dst (o := o) hd
  obtain ⟨hlt, hip⟩ := List.getElem?_eq_some_iff.1 hip
  obtain ⟨hlt', hseq⟩ := List.getElem?_eq_some_iff.1 hseq
  have hload := fun {k : ℕ} (hk : k < (m.words o).length) =>
    load_storeAll o r [3, 0, 0, m.dstCount] (m.words o) hk
  have h₁ : Octets.load r (m.octets o) (Rerr.size + AodvDst.size * i) =
      some (hton r (hton o d.ip)) := by
    rw [octets_eq h, ← hip, ← hload hlt]
    congr 1
    simp only [Rerr.size, AodvDst.size, List.length_cons, List.length_nil]
    omega
  have h₂ : Octets.load r (m.octets o) (Rerr.size + AodvDst.size * i + 4) =
      some (hton r (hton o (hton o d.seq))) := by
    rw [octets_eq h, ← hseq, ← hload hlt']
    congr 1
    simp only [Rerr.size, AodvDst.size, List.length_cons, List.length_nil]
    omega
  rw [AodvDst.load, h₁, h₂]
  simp [AodvDst.seen]

theorem loadDsts_of_load {data : List Byte} {l : List AodvDst} {i : ℕ}
    (h : ∀ k d, l[k]? = some d → AodvDst.load o data (i + k) = some d) :
    loadDsts o data l.length i = some l := by
  induction l generalizing i with
  | nil => rfl
  | cons d l ih =>
    have hd : AodvDst.load o data i = some d := h 0 d rfl
    have hl : loadDsts o data l.length (i + 1) = some l := ih fun k d hk => by
      rw [Nat.add_assoc, Nat.add_comm 1 k]
      exact h (k + 1) d hk
    rw [List.length_cons, loadDsts, hd, hl]
    rfl

theorem length_of_loadDsts {data : List Byte} {n i : ℕ} {l : List AodvDst}
    (h : loadDsts o data n i = some l) :
    l.length = n := by
  induction n generalizing i l with
  | zero =>
    obtain rfl : [] = l := Option.some.inj h
    rfl
  | succ n ih =>
    simp only [loadDsts, Option.bind_eq_bind, Option.bind_eq_some_iff, Option.pure_def,
      Option.some.injEq] at h
    obtain ⟨d, -, l', hl', rfl⟩ := h
    rw [List.length_cons, ih hl']

/-- A receiver goes through as many of the listed destinations as the count says. -/
theorem rerrDsts_octets (h : m.dsts.length < 2 ^ 28) (hcount : m.dstCount.toNat ≤ m.dsts.length) :
    rerrDsts r (m.octets o) = some ((m.dsts.take m.dstCount.toNat).map (AodvDst.seen o r)) := by
  have hlen : ((m.dsts.take m.dstCount.toNat).map (AodvDst.seen o r)).length =
      m.dstCount.toNat := by
    rw [List.length_map, List.length_take, Nat.min_eq_left hcount]
  have hload : loadDsts r (m.octets o)
      ((m.dsts.take m.dstCount.toNat).map (AodvDst.seen o r)).length 0 = _ :=
    loadDsts_of_load fun k d hd => by
      rw [List.getElem?_map, List.getElem?_take] at hd
      obtain ⟨d', hd', rfl⟩ := Option.map_eq_some_iff.1 hd
      split at hd'
      · rw [Nat.zero_add]
        exact load_octets h hd'
      · cases hd'
  rw [rerrDsts, octets_dstCount]
  rw [hlen] at hload
  exact hload

end Octets

/-- A receiver of order `r` takes the error of a host of order `o`, and
goes through the lost routes, each once. -/
structure Understood (o r : ByteOrder) (lost : List Route) (m : Rerr) : Prop where
  accepted : validRerr (m.octets o) = true
  listed : rerrDsts r (m.octets o) = some (lost.reverse.map fun x => x.listing.seen o r)

/-- A receiver goes through as many destinations as the count says. -/
theorem Understood.dstCount {o r : ByteOrder} {lost : List Route} {m : Rerr}
    (h : Understood o r lost m) :
    m.dstCount.toNat = lost.length := by
  have hlisted := h.listed
  rw [rerrDsts, octets_dstCount] at hlisted
  have hnum := length_of_loadDsts hlisted
  rw [List.length_map, List.length_reverse] at hnum
  exact hnum.symm

/-- With memory for everything, `gen_rerr` sends an error unless nothing is lost. -/
theorem sent_genRerr (hroute : ∀ i, mem .rerrRoute i = true) (hrerr : mem .rerr 0 = true) :
    (genRerr mem clk brkDstIp s).sent.drop s.sent.length =
      if (lostRoutes brkDstIp s.routes).length = 0 then [] else
        [{ dst := broadcastIp, ttl := BitVec.ofNat 8 netDiameter, msg := .rerr {
            dstCount := BitVec.ofNat 8 (lostRoutes brkDstIp s.routes).length
            dsts := ((lostRoutes brkDstIp s.routes).map Route.listing).reverse } }] := by
  rw [genRerr_of_mem clk fun i _ => hroute i, hrerr]
  split
  · exact List.drop_length
  · change (s.sent ++ _).drop s.sent.length = _
    rw [List.drop_left]
    simp

theorem understood_genRerr_iff (o r : ByteOrder) (hroute : ∀ i, mem .rerrRoute i = true)
    (hrerr : mem .rerr 0 = true) :
    (∀ g ∈ (genRerr mem clk brkDstIp s).sent.drop s.sent.length,
      ∃ m, g.msg = .rerr m ∧ Understood o r (lostRoutes brkDstIp s.routes) m) ↔
    (lostRoutes brkDstIp s.routes).length ≤ 255 := by
  rw [sent_genRerr hroute hrerr]
  by_cases hnone : (lostRoutes brkDstIp s.routes).length = 0
  · rw [if_pos hnone]
    exact iff_of_true (by simp) (by omega)
  rw [if_neg hnone]
  generalize hm : Rerr.mk (BitVec.ofNat 8 (lostRoutes brkDstIp s.routes).length)
    ((lostRoutes brkDstIp s.routes).map Route.listing).reverse = m
  have hcount : m.dstCount.toNat = (lostRoutes brkDstIp s.routes).length % 256 := by rw [← hm]; simp
  have hdsts : m.dsts = ((lostRoutes brkDstIp s.routes).map Route.listing).reverse := by rw [← hm]
  have hlen : m.dsts.length = (lostRoutes brkDstIp s.routes).length := by simp [hdsts]
  constructor
  · intro h
    obtain ⟨m', hm', hu⟩ := h _ List.mem_cons_self
    obtain rfl : m = m' := by simpa using hm'
    have hnum := hu.dstCount
    omega
  · intro h
    have hshort : m.dsts.length < 2 ^ 28 := by omega
    have hfull : m.dstCount.toNat = m.dsts.length := by omega
    intro g hg
    obtain rfl := List.mem_singleton.1 hg
    refine ⟨m, rfl, ?_, ?_⟩
    · rw [validRerr_octets hshort, hfull]
      exact beq_self_eq_true _
    · rw [rerrDsts_octets hshort hfull.le, hfull, List.take_length, hdsts,
        ← List.map_reverse, List.map_map]
      rfl

theorem understood_genRerr_lostRoute :
    (∀ g ∈ (genRerr .plenty ⟨0, 0⟩ 0x0A000002 { routes := [lostRoute] }).sent.drop 0,
      ∃ m, g.msg = .rerr m ∧ Understood .little .big [lostRoute] m) ↔ 1 ≤ 255 :=
  understood_genRerr_iff (s := { routes := [lostRoute] }) .little .big (fun _ => rfl) rfl

/-- Routes to 256 nodes through one. -/
def manyRoutes : List Route :=
  (List.range 256).map fun i => { lostRoute with ptr := i, ip := 0x0A000100 + BitVec.ofNat 32 i }

/-- Of 256 lost routes the count says 0. -/
theorem not_understood_manyRoutes :
    ¬ ∀ (mem : Mem) (clk : Clock) (brkDstIp : U32) (s : Router) (o r : ByteOrder),
    mem.Succeeds → ∀ g ∈ (genRerr mem clk brkDstIp s).sent.drop s.sent.length,
      ∃ m, g.msg = .rerr m ∧ Understood o r (lostRoutes brkDstIp s.routes) m := by
  intro h
  have hlost : lostRoutes 0x0A000002 manyRoutes = manyRoutes := by decide +kernel
  have hlen : manyRoutes.length = 256 := by simp [manyRoutes]
  have hmany := h .plenty ⟨0, 0⟩ 0x0A000002 { routes := manyRoutes } .big .big Mem.plenty_succeeds
  rw [sent_genRerr (fun _ => rfl) rfl, hlost, hlen, if_neg (by decide)] at hmany
  obtain ⟨m, hm, hu⟩ := hmany _ List.mem_cons_self
  obtain rfl := Message.rerr.inj hm
  have hcount := hu.dstCount
  rw [hlen] at hcount
  exact absurd hcount (by decide)

end MobileCloudCaching.Aodv
