import MobileCloudCaching.Caching.PacketIn

/-!
# Decoding a file reply inside its bounds

`valid_cache_packet` ties the length of a file reply to its fragment count, an octet, while
`create_rinfo` copies as many fragments into a map of eight, after a conversion of the count that is
the identity on a big-endian host only.
-/

namespace MobileCloudCaching.Caching

open Octets

variable {p : Params}

/-! ## What the loops touch -/

/-- The loop of `process_flrep` over a reply reads at the indices that it runs through. -/
theorem mem_trace_fillMap {kval : ℤ} {r : FileRepInfo} {n i : ℕ} {c : Choice} {a : Access}
    (h : a ∈ (fillMap kval r n i c).trace) : ∃ j, i ≤ j ∧ j < i + n ∧ a = .readMap j := by
  induction n generalizing i c with
  | zero => simp [fillMap] at h
  | succ n ih =>
    unfold fillMap at h
    split at h
    · rw [Traced.trace_bind, List.mem_append] at h
      rcases h with h | h
      · exact ⟨i, le_rfl, by omega, List.mem_singleton.1 h⟩
      · rw [Traced.value_access] at h
        split at h
        · simp at h
        · split at h
          · simp at h
          · obtain ⟨j, hij, hji, rfl⟩ := ih h
            exact ⟨j, by omega, by omega, rfl⟩
    · simp at h

/-- The number of rounds of the loop of `create_rinfo` for the count octet `n`. -/
def rounds (o : ByteOrder) (n : Byte) : ℕ := (hton o (n.setWidth 32)).toInt.toNat

theorem rounds_big (n : Byte) : rounds .big n = n.toNat := by
  have hn := n.isLt
  rw [rounds, hton_big, BitVec.toInt_eq_toNat_of_lt]
  · simp
    omega
  · simp
    omega

/-- On a little-endian host a count below 128 is multiplied by `2 ^ 24`, and a larger one is
negative. -/
theorem rounds_little (n : Byte) :
    rounds .little n = if n.toNat < 128 then n.toNat * 2 ^ 24 else 0 := by
  have hn := n.isLt
  have hswap : (hton .little (n.setWidth 32)).toNat = n.toNat * 2 ^ 24 := by
    have hset : (n.setWidth 32).toNat = n.toNat := by simp; omega
    rw [toNat_hton_little_of_lt (by omega), hset]
  rw [rounds, BitVec.toInt_eq_toNat_cond, hswap]
  split_ifs <;> omega

/-! ## The bounds -/

/-- `create_rinfo` on a task reads only fragment ids inside the data and writes only
inside the map, and the loop of `process_flrep` on the new entry reads only what was
written, whatever it has chosen before. -/
structure DecodesInside (o : ByteOrder) (map : Vector U32 8) (t : Task) (m : FileRep) : Prop where
  reads : ∀ i, .readFrag i ∈ (fillRinfo o map m (fragsOfTask o t)).trace →
    FileRep.size + 4 * i + 4 ≤ t.data.length
  writes : ∀ i, .writeMap i ∈ (fillRinfo o map m (fragsOfTask o t)).trace → i < 8
  later : ∀ kval c i, .readMap i ∈ (fillMap kval (fillRinfo o map m (fragsOfTask o t)).value
      (fillRinfo o map m (fragsOfTask o t)).value.fragCount.toNat 0 c).trace →
    .writeMap i ∈ (fillRinfo o map m (fragsOfTask o t)).trace

theorem mem_trace_fillRinfo {o : ByteOrder} {map : Vector U32 8} {m : FileRep} {frags : ℕ → U32}
    {a : Access} : a ∈ (fillRinfo o map m frags).trace ↔
      ∃ j < rounds o m.fragCount, a = .readFrag j ∨ a = .writeMap j := by
  refine mem_trace_copyFrags.trans ?_
  simp only [Nat.zero_le, true_and, Nat.zero_add]
  rfl

/-- A loop that still needs fragments reads the first one. -/
theorem readMap_mem_fillMap (r : FileRepInfo) {n : ℕ} (hn : 0 < n) :
    .readMap 0 ∈ (fillMap 1 r n 0 ⟨[], 0, 0, [], []⟩).trace := by
  obtain ⟨n, rfl⟩ := Nat.exists_eq_succ_of_ne_zero hn.ne'
  simp [fillMap]

theorem toNat_fragCount_fillRinfo {o : ByteOrder} (map : Vector U32 8) {m : FileRep}
    (frags : ℕ → U32) (hr : rounds o m.fragCount ≤ 8) :
    (fillRinfo o map m frags).value.fragCount = hton o (m.fragCount.setWidth 32) :=
  fragCount_copyFrags o frags (by rw [Nat.zero_add]; exact hr) _

/-- For data that is as long as the count says, decoding stays inside its bounds exactly if the
count is zero, or the host is big-endian and the count at most eight. -/
theorem decodesInside_iff {o : ByteOrder} {map : Vector U32 8} {t : Task} {m : FileRep}
    (hlen : t.data.length = FileRep.size + 4 * m.fragCount.toNat) :
    DecodesInside o map t m ↔ m.fragCount = 0 ∨ o = .big ∧ m.fragCount.toNat ≤ 8 := by
  have hset : (m.fragCount.setWidth 32).toNat = m.fragCount.toNat := by
    have hn := m.fragCount.isLt
    simp
    omega
  constructor
  · intro h
    by_contra hbad
    rw [not_or] at hbad
    obtain ⟨hpos, hbad⟩ := hbad
    have hpos : m.fragCount.toNat ≠ 0 := fun h0 => hpos (BitVec.eq_of_toNat_eq h0)
    cases o with
    | big =>
      -- the ninth store leaves the map
      have hmany : 8 < rounds .big m.fragCount := by
        rw [rounds_big]
        exact not_le.1 fun hle => hbad ⟨rfl, hle⟩
      have := h.writes 8 (mem_trace_fillRinfo.2 ⟨8, hmany, Or.inr rfl⟩)
      omega
    | little =>
      have hr := rounds_little m.fragCount
      by_cases hsmall : m.fragCount.toNat < 128
      · rw [if_pos hsmall] at hr
        have := h.writes 8 (mem_trace_fillRinfo.2 ⟨8, by omega, Or.inr rfl⟩)
        omega
      · -- nothing is written, but `frag_count` is not zero
        rw [if_neg hsmall] at hr
        have hr' : rounds .little m.fragCount ≤ 8 := by omega
        have hcount := toNat_fragCount_fillRinfo map (fragsOfTask .little t) hr'
        have hpos' : 0 <
            (fillRinfo .little map m (fragsOfTask .little t)).value.fragCount.toNat := by
          rw [hcount, toNat_hton_little_of_lt (by rw [hset]; exact m.fragCount.isLt), hset]
          omega
        have hwritten := h.later 1 _ 0 (readMap_mem_fillMap _ hpos')
        obtain ⟨j, hj, -⟩ := mem_trace_fillRinfo.1 hwritten
        omega
  · intro hgood
    have hcount : rounds o m.fragCount = m.fragCount.toNat ∧ m.fragCount.toNat ≤ 8 ∧
        hton o (m.fragCount.setWidth 32) = m.fragCount.setWidth 32 := by
      rcases hgood with h0 | ⟨rfl, hle⟩
      · rw [h0]
        cases o <;> decide
      · exact ⟨rounds_big _, hle, rfl⟩
    obtain ⟨hr, hle, hton⟩ := hcount
    refine ⟨fun i hi => ?_, fun i hi => ?_, fun kval c i hi => ?_⟩
    · obtain ⟨j, hj, h⟩ := mem_trace_fillRinfo.1 hi
      obtain rfl : i = j := by simpa using h
      omega
    · obtain ⟨j, hj, h⟩ := mem_trace_fillRinfo.1 hi
      obtain rfl : i = j := by simpa using h
      omega
    · obtain ⟨j, -, hj, h⟩ := mem_trace_fillMap hi
      obtain rfl : i = j := by simpa using h
      rw [toNat_fragCount_fillRinfo map _ (by omega), hton, hset] at hj
      exact mem_trace_fillRinfo.2 ⟨i, by omega, Or.inr rfl⟩

/-! ## Packets -/

/-- `valid_cache_packet` reads no octet at or behind `numbytes`, and a packet that it accepts as
a file reply is decoded inside its bounds from the task that `insert_task` makes of it. -/
def SafeFileRep (p : Params) (skb : SkBuff) : Prop :=
  (∀ d, ∀ i ∈ (validCachePacket p skb.numbytes (skb.message 0) skb.message d).trace,
    (i : ℤ) < skb.numbytes) ∧
  ∀ d clk map m, skb.message 0 = fileRepMessage →
    (validCachePacket p skb.numbytes (skb.message 0) skb.message d).value.1 = true →
    FileRep.load p.order (taskOfPacket p clk .fileRepProcess skb).data = some m →
    DecodesInside p.order map (taskOfPacket p clk .fileRepProcess skb) m

theorem validCachePacket_fileRep (numbytes : ℤ) (data : ℕ → Byte) (d : Daemon) :
    (validCachePacket p numbytes fileRepMessage data d).value.1 = true ↔
      numbytes = (FileRep.size + 4 * (data 3).toNat : ℕ) := by
  have hvalue : (validCachePacket p numbytes fileRepMessage data d).value =
      validSize numbytes (FileRep.size + 4 * (data 3).toNat) addFOverhead d := rfl
  rw [hvalue, validSize]
  split
  · exact iff_of_true rfl ‹_›
  · exact iff_of_false (by simp) ‹_›

theorem getElem?_of_load {o : ByteOrder} {data : List Byte} {m : FileRep}
    (h : FileRep.load o data = some m) : data[3]? = some m.fragCount := by
  obtain ⟨n, hn, h⟩ := Option.bind_eq_some_iff.1 h
  obtain ⟨a, -, h⟩ := Option.bind_eq_some_iff.1 h
  obtain ⟨b, -, h⟩ := Option.bind_eq_some_iff.1 h
  obtain ⟨c, -, h⟩ := Option.bind_eq_some_iff.1 h
  obtain ⟨e, -, h⟩ := Option.bind_eq_some_iff.1 h
  obtain rfl := Option.some.inj h
  exact hn

theorem exists_load {o : ByteOrder} {data : List Byte} (h : FileRep.size ≤ data.length) :
    ∃ m, FileRep.load o data = some m := by
  have h20 : 20 ≤ data.length := h
  have hload : ∀ i, i + 4 ≤ 20 → ∃ x, Octets.load o data i = some x := fun i hi =>
    Option.isSome_iff_exists.1 ((load_isSome_iff o data i).2 (by omega))
  obtain ⟨a, ha⟩ := hload 4 (by decide)
  obtain ⟨b, hb⟩ := hload 8 (by decide)
  obtain ⟨c, hc⟩ := hload 12 (by decide)
  obtain ⟨e, he⟩ := hload 16 (by decide)
  have h3 : data[3]? = some data[3] := List.getElem?_eq_getElem (by omega)
  refine ⟨⟨data[3], a, b, c, e⟩, ?_⟩
  simp [FileRep.load, h3, ha, hb, hc, he]

/-- Decoding a file reply is safe exactly if the packet is long enough to have a count, and a
count that agrees with the length is zero or, on a big-endian host, at most eight. -/
theorem safeFileRep_iff (p : Params) (skb : SkBuff) :
    SafeFileRep p skb ↔
      (skb.message 0 = fileRepMessage → 4 ≤ skb.numbytes ∧
        (skb.numbytes = (FileRep.size + 4 * (skb.message 3).toNat : ℕ) →
          skb.message 3 = 0 ∨ p.order = .big ∧ (skb.message 3).toNat ≤ 8)) := by
  -- an accepted file reply has a task with the same count, of the length that the count says
  have htask : ∀ clk, skb.numbytes = (FileRep.size + 4 * (skb.message 3).toNat : ℕ) →
      (taskOfPacket p clk .fileRepProcess skb).data.length =
        FileRep.size + 4 * (skb.message 3).toNat ∧
      (taskOfPacket p clk .fileRepProcess skb).data[3]? = some (skb.message 3) := by
    intro clk hlen
    have hsize : FileRep.size = 20 := rfl
    have hstart : SkBuff.startPoint = 28 := rfl
    simp only [SkBuff.numbytes] at hlen
    refine ⟨?_, SkBuff.getElem?_payload (by omega)⟩
    exact skb.length_payload.trans (by omega)
  constructor
  · rintro ⟨hvalid, hdecode⟩ hrep
    refine ⟨?_, fun hlen => ?_⟩
    · have h3 := hvalid {} 3
      rw [trace_validCachePacket, if_neg (fun h => absurd (h.1.symm.trans hrep) (by decide)),
        if_pos hrep] at h3
      have := h3 List.mem_cons_self
      omega
    · obtain ⟨hdata, hcount⟩ := htask ⟨0, 0⟩ hlen
      obtain ⟨m, hm⟩ := exists_load (o := p.order) (show FileRep.size ≤ _ by rw [hdata]; omega)
      have hm3 : m.fragCount = skb.message 3 :=
        Option.some.inj ((getElem?_of_load hm).symm.trans hcount)
      rw [← hm3]
      refine (decodesInside_iff (by rw [hdata, hm3])).1 (hdecode {} ⟨0, 0⟩ (Vector.replicate 8 0) m
        hrep ?_ hm)
      rw [hrep]
      exact (validCachePacket_fileRep _ _ _).2 hlen
  · intro hcond
    refine ⟨fun d i hi => ?_, fun d clk map m hrep hvalid hm => ?_⟩
    · rw [trace_validCachePacket] at hi
      split at hi
      · rename_i hreq
        have h24 : skb.numbytes = 24 := hreq.2
        simp at hi
        omega
      · split at hi
        · rename_i hrep
          have := (hcond hrep).1
          rw [List.mem_singleton.1 hi]
          omega
        · cases hi
    · rw [hrep] at hvalid
      have hlen := (validCachePacket_fileRep _ _ _).1 hvalid
      obtain ⟨hdata, hcount⟩ := htask clk hlen
      have hm3 : m.fragCount = skb.message 3 :=
        Option.some.inj ((getElem?_of_load hm).symm.trans hcount)
      refine (decodesInside_iff (by rw [hdata, hm3])).2 ?_
      rw [hm3]
      exact (hcond hrep).2 hlen

/-- A file reply from 192.168.0.20 with nine fragments. -/
def nineFrags : SkBuff :=
  .udp .big 0xC0A80014 0xC0A8000A 10 cachePort
    (flrepOctets testNode 0xC0A80014 0xC0A8000A 1 1 [1, 2, 3, 4, 5, 6, 7, 8, 9])

/-- The ninth fragment id is stored behind the map. -/
theorem not_safeFileRep_nine : ¬ ∀ (p : Params) (skb : SkBuff), SafeFileRep p skb := by
  intro h
  have hdecode := (h testNode nineFrags).2 {} ⟨0, 0⟩ (Vector.replicate 8 0)
    ⟨9, 0xC0A80014, 0xC0A8000A, 1, 1⟩ (by decide +kernel) (by decide +kernel) (by decide +kernel)
  have hlt := hdecode.writes 8 (mem_trace_fillRinfo.2 ⟨8, by decide, Or.inr rfl⟩)
  omega

end MobileCloudCaching.Caching
