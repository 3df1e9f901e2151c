import MobileCloudCaching.Caching.Capacity

/-!
# Exchange scores

`getScore` advertises what `retrieve_frag` is asked to do afterwards, with tests of its own: it
looks whether the fragment is present, but not whether a full table has an entry to replace, and
what it computes with signed numbers is sent as an unsigned one.
-/

namespace MobileCloudCaching.Caching

open Transition

variable {p : Params}

/-- The daemon has a cache table that the operations lead to, from any table that `create_cache`
builds. -/
def ReachableTable (p : Params) (d : Daemon) : Prop :=
  ∃ (calls : List CreateCall) (ops : List CacheOp) (d₀ : Daemon),
    d₀.ctable = [] ∧ d₀.ctLen = 0 ∧ d₀.freed = [] ∧ (∀ c ∈ calls, c.flag = 0 ∨ c.flag = 1) ∧
    exec (cacheStep p) ops (createCaches calls d₀) = some d

/-- A score other than zero is one between 1 and `BUF_SIZE + 1`, and the node can keep what it
promises: prefetching the fragment in the same state puts it into the table. -/
def HonestScore (p : Params) (ok : Bool) (fileId fragId : U32) (d : Daemon) : Prop :=
  getScore p fileId fragId d ≠ 0 →
    (1 ≤ (getScore p fileId fragId d).toNat ∧
      ((getScore p fileId fragId d).toNat : ℤ) ≤ p.bufSize.toInt + 1) ∧
    (retrieveFrag p ok fileId fragId d).1 = 0 ∧
    (fileId, fragId) ∈ (retrieveFrag p ok fileId fragId d).2.ctable.map CacheTable.key

/-- Of two nodes with a score for the fragment, the one with fewer entries has no lower score. -/
def OrderedScores (p : Params) (fileId fragId : U32) (d e : Daemon) : Prop :=
  getScore p fileId fragId d ≠ 0 → getScore p fileId fragId e ≠ 0 →
    d.ctable.length < e.ctable.length →
    getScore p fileId fragId e ≤ getScore p fileId fragId d

/-- The fragment is missing and its file has fewer than `KVAL - 1` entries. -/
def Wanted (p : Params) (fileId fragId : U32) (d : Daemon) : Prop :=
  (fileId, fragId) ∉ d.ctable.map CacheTable.key ∧
    (fileCount d.ctable fileId : ℤ) < p.kval.toInt - 1

/-- The table is one entry too long, which makes the score zero; or there is memory, and room, or an
entry to replace in a table that is exactly full. -/
def TakesFragment (p : Params) (ok : Bool) (d : Daemon) : Prop :=
  d.ctLen = p.bufSize.toInt + 1 ∨
    ok = true ∧ (d.ctLen < p.bufSize.toInt ∨
      d.ctLen = p.bufSize.toInt ∧ ∃ c ∈ d.ctable, c.isServiceCenter ≠ 1)

/-! ## Scores as numbers -/

theorem isSome_findCacheByFr (t : List CacheTable) (fileId fragId : U32) :
    (findCacheByFr t fileId fragId).isSome = true ↔ (fileId, fragId) ∈ t.map CacheTable.key := by
  rw [findCacheByFr, List.find?_isSome, List.mem_map]
  exact exists_congr fun c => and_congr_right fun _ => CacheTable.matchesFr_iff

theorem getScore_of_wanted {fileId fragId : U32} {d : Daemon} (h : Wanted p fileId fragId d) :
    getScore p fileId fragId d = BitVec.ofInt 32 (p.bufSize.toInt - d.ctLen + 1) := by
  have hfile := h.2
  rw [getScore, if_neg (mt (isSome_findCacheByFr _ _ _).1 h.1), if_neg (by omega)]

theorem getScore_of_not_wanted {fileId fragId : U32} {d : Daemon} (h : ¬ Wanted p fileId fragId d) :
    getScore p fileId fragId d = 0 := by
  unfold getScore
  split
  · rfl
  · rename_i hmem
    refine if_pos (le_of_not_gt fun hfile => h ⟨mt (isSome_findCacheByFr _ _ _).2 hmem, hfile⟩)

/-- The score of a table that is not too long is the number of free places and one more; that of a
longer one is a large number. -/
theorem toNat_getScore {fileId fragId : U32} {d : Daemon} (h : Wanted p fileId fragId d)
    (hbuf : 0 ≤ p.bufSize.toInt) (hlen : 0 ≤ d.ctLen) (hlen' : d.ctLen < 2 ^ 31) :
    ((getScore p fileId fragId d).toNat : ℤ) =
      if d.ctLen ≤ p.bufSize.toInt + 1 then p.bufSize.toInt - d.ctLen + 1
      else p.bufSize.toInt - d.ctLen + 1 + 2 ^ 32 := by
  have hmax : p.bufSize.toInt < 2 ^ 31 := p.bufSize.toInt_lt
  rw [getScore_of_wanted h, BitVec.toNat_ofInt]
  split <;> omega

theorem getScore_ne_zero_iff {fileId fragId : U32} {d : Daemon} (hbuf : 0 ≤ p.bufSize.toInt)
    (hlen : 0 ≤ d.ctLen) (hlen' : d.ctLen < 2 ^ 31) :
    getScore p fileId fragId d ≠ 0 ↔
      Wanted p fileId fragId d ∧ d.ctLen ≠ p.bufSize.toInt + 1 := by
  by_cases h : Wanted p fileId fragId d
  · have hmax : p.bufSize.toInt < 2 ^ 31 := p.bufSize.toInt_lt
    have hn := toNat_getScore h hbuf hlen hlen'
    have hz : getScore p fileId fragId d = 0 ↔ (getScore p fileId fragId d).toNat = 0 :=
      BitVec.toNat_inj.symm
    rw [ne_eq, hz, and_iff_right h]
    split at hn <;> omega
  · rw [getScore_of_not_wanted h]
    exact iff_of_false (by simp) fun hc => h hc.1

/-! ## What a prefetch does -/

theorem mem_map_key_createCache {fileId fragId : U32} {ok : Bool} {d : Daemon}
    (h : (fileId, fragId) ∉ d.ctable.map CacheTable.key) :
    (fileId, fragId) ∈ (createCache ok fileId fragId 0 d).ctable.map CacheTable.key ↔
    ok = true := by
  cases ok with
  | false => simpa [createCache] using h
  | true => simp [createCache, insertCache, CacheTable.key]

/-- A wanted fragment is added exactly if there is memory, and room or an entry to replace. -/
theorem retrieveFrag_adds_iff {fileId fragId : U32} {ok : Bool} {d : Daemon}
    (h : Wanted p fileId fragId d) :
    ((retrieveFrag p ok fileId fragId d).1 = 0 ∧
        (fileId, fragId) ∈ (retrieveFrag p ok fileId fragId d).2.ctable.map CacheTable.key) ↔
      ok = true ∧ (d.ctLen < p.bufSize.toInt ∨ ∃ c ∈ d.ctable, c.isServiceCenter ≠ 1) := by
  have hfile := h.2
  rw [retrieveFrag, if_neg (mt (length_heldFrags_ge_iff _ _ _).1 (by omega))]
  dsimp only
  split
  · rename_i hfull
    cases hv : victim d.ctable with
    | none =>
      refine iff_of_false (fun hc => absurd hc.1 (one_ne_zero (α := ℤ))) ?_
      rintro ⟨-, hroom | ⟨c, hc, hne⟩⟩
      · omega
      · exact hne (victim_eq_none_iff.1 hv c hc)
    | some i =>
      have hc : ∃ c ∈ d.ctable, c.isServiceCenter ≠ 1 := by
        by_contra hall
        simp only [not_exists, not_and, not_not] at hall
        rw [victim_eq_none_iff.2 hall] at hv
        cases hv
      have habsent : (fileId, fragId) ∉
          (removeCache i { d with cPrefetch := d.cPrefetch + 1 }).ctable.map CacheTable.key :=
        fun hmem => h.1 (((List.eraseIdx_sublist d.ctable i).map _).subset hmem)
      rw [and_iff_left (Or.inr hc)]
      exact (and_iff_right rfl).trans (mem_map_key_createCache habsent)
  · rename_i hroom
    rw [and_iff_left (Or.inl (by omega))]
    exact (and_iff_right rfl).trans (mem_map_key_createCache h.1)

/-! ## Honest scores -/

theorem honestScore_iff_takesFragment {fileId fragId : U32} {ok : Bool} {d : Daemon}
    (hbuf : 0 ≤ p.bufSize.toInt) (hlen : 0 ≤ d.ctLen) (hlen' : d.ctLen < 2 ^ 31) :
    HonestScore p ok fileId fragId d ↔ (Wanted p fileId fragId d → TakesFragment p ok d) := by
  have hmax : p.bufSize.toInt < 2 ^ 31 := p.bufSize.toInt_lt
  rw [HonestScore, getScore_ne_zero_iff hbuf hlen hlen', and_imp]
  refine forall_congr' fun hw => ?_
  rw [retrieveFrag_adds_iff hw]
  have hn := toNat_getScore hw hbuf hlen hlen'
  unfold TakesFragment
  constructor
  · intro h
    by_cases hone : d.ctLen = p.bufSize.toInt + 1
    · exact Or.inl hone
    · obtain ⟨⟨hlow, hhigh⟩, hok, hroom⟩ := h hone
      refine Or.inr ⟨hok, ?_⟩
      split at hn
      · rcases hroom with hroom | hc
        · exact Or.inl hroom
        · by_cases hlt : d.ctLen < p.bufSize.toInt
          · exact Or.inl hlt
          · exact Or.inr ⟨by omega, hc⟩
      · omega
  · rintro (hone | ⟨hok, hroom⟩) hne
    · exact absurd hone hne
    · have hle : d.ctLen ≤ p.bufSize.toInt := hroom.elim le_of_lt fun h => h.1.le
      rw [if_pos (by omega)] at hn
      exact ⟨⟨by omega, by omega⟩, hok, hroom.imp_right And.right⟩

theorem orderedScores_iff_of_len {fileId fragId : U32} {d e : Daemon} (hbuf : 0 ≤ p.bufSize.toInt)
    (hd : d.ctLen = d.ctable.length) (he : e.ctLen = e.ctable.length) (hd' : d.ctLen < 2 ^ 31)
    (he' : e.ctLen < 2 ^ 31) :
    OrderedScores p fileId fragId d e ↔
      (Wanted p fileId fragId d → Wanted p fileId fragId e →
        ¬ (d.ctLen ≤ p.bufSize.toInt ∧ p.bufSize.toInt + 1 < e.ctLen)) := by
  have hmax : p.bufSize.toInt < 2 ^ 31 := p.bufSize.toInt_lt
  rw [OrderedScores, getScore_ne_zero_iff hbuf (by omega) hd',
    getScore_ne_zero_iff hbuf (by omega) he', BitVec.le_def]
  constructor
  · rintro h hwd hwe ⟨hle, hlt⟩
    have hs := h ⟨hwd, by omega⟩ ⟨hwe, by omega⟩ (by omega)
    have hnd := toNat_getScore hwd hbuf (by omega) hd'
    have hne := toNat_getScore hwe hbuf (by omega) he'
    rw [if_pos (by omega)] at hnd
    rw [if_neg (by omega)] at hne
    omega
  · rintro h ⟨hwd, hd1⟩ ⟨hwe, he1⟩ hlt
    have hnot := h hwd hwe
    have hnd := toNat_getScore hwd hbuf (by omega) hd'
    have hne := toNat_getScore hwe hbuf (by omega) he'
    split at hnd <;> split at hne <;> omega

theorem ReachableTable.cacheWf {d : Daemon} (h : ReachableTable p d) : CacheWf d := by
  obtain ⟨calls, ops, d₀, ht, hl, hfreed, hflags, he⟩ := h
  have hwf : CacheWf d₀ := ⟨by rw [hl, ht]; rfl, by simp [ht], by simp [hfreed]⟩
  have hinit : CacheInv p (createCaches calls d₀) (createCaches calls d₀) :=
    ⟨hwf.createCaches hflags, le_max_left _ _, fun _ => le_max_left _ _, rfl⟩
  exact (exec_of_step (fun _ _ _ hd hs => CacheInv.cacheStep hd hs) hinit he).toCacheWf

/-- In every reachable table, and for every fragment: the score is honest exactly if the fragment
is not wanted, or the table has room for it, or is exactly full with an entry to replace, or is
one entry too long.  The scores of two tables are in order exactly if it is not so that one is
within `BUF_SIZE` and the other longer by more than one entry. -/
theorem honestScore_iff (hbuf : 0 ≤ p.bufSize.toInt) {d e : Daemon} (hd : ReachableTable p d)
    (he : ReachableTable p e) (hd' : d.ctLen < 2 ^ 31) (he' : e.ctLen < 2 ^ 31) (ok : Bool)
    (fileId fragId : U32) :
    (HonestScore p ok fileId fragId d ↔ (Wanted p fileId fragId d → TakesFragment p ok d)) ∧
    (OrderedScores p fileId fragId d e ↔
      (Wanted p fileId fragId d → Wanted p fileId fragId e →
        ¬ (d.ctLen ≤ p.bufSize.toInt ∧ p.bufSize.toInt + 1 < e.ctLen))) := by
  have hlen := hd.cacheWf.len
  exact ⟨honestScore_iff_takesFragment hbuf (by omega) hd',
    orderedScores_iff_of_len hbuf hlen he.cacheWf.len hd' he'⟩

/-- The fragments 1 of the files 1, …, `n`, all of them service centers. -/
def centersOf (n : ℕ) : Daemon :=
  createCaches ((List.range n).map fun i => ⟨true, BitVec.ofNat 32 (i + 1), 1, 1⟩) {}

theorem reachableTable_centersOf (n : ℕ) : ReachableTable testNode (centersOf n) :=
  ⟨_, [], {}, rfl, rfl, rfl, by simp, rfl⟩

/-- With three service centers and `BUF_SIZE = 3` the score of a missing fragment is not honest, and
with five it is higher than the score of an empty table. -/
theorem honestScore_iff_centersOf :
    ¬ HonestScore testNode true 9 1 (centersOf 3) ∧
      ¬ OrderedScores testNode 9 1 (centersOf 0) (centersOf 5) := by
  have h := honestScore_iff (p := testNode) (by decide) (reachableTable_centersOf 3)
    (reachableTable_centersOf 3) (by decide) (by decide) true 9 1
  have h' := honestScore_iff (p := testNode) (by decide) (reachableTable_centersOf 0)
    (reachableTable_centersOf 5) (by decide) (by decide) true 9 1
  rw [h.1, h'.2]
  unfold Wanted TakesFragment
  decide

/-- A node that was loaded with five service centers and `BUF_SIZE = 3` advertises `2 ^ 32 - 1`, and
cannot take the fragment. -/
theorem not_honestScore_fiveCenters :
    ¬ ∀ (p : Params) (d : Daemon) (fileId fragId : U32), 0 ≤ p.bufSize.toInt → ReachableTable p d →
      HonestScore p true fileId fragId d := by
  intro h
  have := h testNode (centersOf 5) 9 1 (by decide) (reachableTable_centersOf 5)
  exact absurd this (by unfold HonestScore; decide)

end MobileCloudCaching.Caching
