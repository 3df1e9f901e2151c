import MobileCloudCaching.Caching.Capacity
import Mathlib.Data.List.Perm.Basic

/-!
# Prefetching a fragment (`cExchange.c`)

`retrieve_frag` counts a fragment before it knows that there is room for it, and gives up a cached
one before it has memory for the new one.  In between it looks for the entry to give up in two
scans, which come to the first of the least referenced entries that are not service centers.
-/

namespace MobileCloudCaching.Caching

open Transition

variable {p : Params} {ok : Bool} {fileId fragId : U32} {d e : Daemon}

/-! ## The entry to give up -/

/-- Between `l₁` and `l₂`, `v` is the first of the least referenced
entries that are not service centers. -/
structure LeastUsed (l₁ : List CacheTable) (v : CacheTable) (l₂ : List CacheTable) : Prop where
  prefetched : v.isServiceCenter = 0
  before : ∀ c ∈ l₁, c.isServiceCenter = 0 → v.refs < c.refs
  behind : ∀ c ∈ l₂, c.isServiceCenter = 0 → v.refs ≤ c.refs

theorem LeastUsed.cons {l₁ l₂ : List CacheTable} {c v : CacheTable} (h : LeastUsed l₁ v l₂)
    (hc : c.isServiceCenter = 0 → v.refs < c.refs) : LeastUsed (c :: l₁) v l₂ :=
  ⟨h.prefetched, List.forall_mem_cons.2 ⟨hc, h.before⟩, h.behind⟩

theorem some_add_one_add {c : CacheTable} (i : ℕ) (l : List CacheTable) :
    some (i + 1 + l.length) = some (i + (c :: l).length) := by
  rw [List.length_cons]
  congr 1
  omega

/-- The second scan keeps the entry `j` with `m` references, or comes to one with fewer. -/
theorem victimFrom_some (t : List CacheTable) (i j : ℕ) (m : U32) :
    victimFrom t i (some (j, m)) = some j ∧ (∀ c ∈ t, c.isServiceCenter = 0 → m ≤ c.refs) ∨
    ∃ l₁ v l₂, t = l₁ ++ v :: l₂ ∧ victimFrom t i (some (j, m)) = some (i + l₁.length) ∧
    v.refs < m ∧
      LeastUsed l₁ v l₂ := by
  induction t generalizing i j m with
  | nil => exact .inl ⟨rfl, by simp⟩
  | cons c t ih =>
    rw [victimFrom]
    by_cases hc : c.refs < m ∧ c.isServiceCenter = 0
    · rw [if_pos hc]
      rcases ih (i + 1) i c.refs with ⟨hk, hle⟩ | ⟨l₁, v, l₂, rfl, hk, hlt, hv⟩
      · exact .inr ⟨[], c, t, rfl, hk, hc.1, hc.2, by simp, hle⟩
      · exact .inr ⟨c :: l₁, v, l₂, rfl, hk.trans (some_add_one_add i l₁), BitVec.lt_trans hlt hc.1,
          hv.cons fun _ => hlt⟩
    · rw [if_neg hc]
      have hle : c.isServiceCenter = 0 → m ≤ c.refs :=
        fun h => BitVec.not_lt.1 fun hlt => hc ⟨hlt, h⟩
      rcases ih (i + 1) j m with ⟨hk, hrest⟩ | ⟨l₁, v, l₂, rfl, hk, hlt, hv⟩
      · exact .inl ⟨hk, List.forall_mem_cons.2 ⟨hle, hrest⟩⟩
      · refine .inr ⟨c :: l₁, v, l₂, rfl, hk.trans (some_add_one_add i l₁), hlt,
          hv.cons fun h => ?_⟩
        exact BitVec.lt_def.2 (Nat.lt_of_lt_of_le (BitVec.lt_def.1 hlt) (BitVec.le_def.1 (hle h)))

theorem exists_victimFrom {t : List CacheTable} {i : ℕ}
    (hflags : ∀ c ∈ t, c.isServiceCenter = 0 ∨ c.isServiceCenter = 1)
    (h : ∃ c ∈ t, c.isServiceCenter = 0) :
    ∃ l₁ v l₂, t = l₁ ++ v :: l₂ ∧ victimFrom t i none = some (i + l₁.length) ∧
    LeastUsed l₁ v l₂ := by
  induction t generalizing i with
  | nil => simp at h
  | cons c t ih =>
    obtain ⟨hc, hflags⟩ := List.forall_mem_cons.1 hflags
    rw [victimFrom]
    rcases hc with hc | hc
    · rw [if_neg (by rw [hc]; decide)]
      rcases victimFrom_some t (i + 1) i c.refs with ⟨hk, hle⟩ | ⟨l₁, v, l₂, rfl, hk, hlt, hv⟩
      · exact ⟨[], c, t, rfl, hk, hc, by simp, hle⟩
      · exact ⟨c :: l₁, v, l₂, rfl, hk.trans (some_add_one_add i l₁), hv.cons fun _ => hlt⟩
    · have hne : ¬ c.isServiceCenter = 0 := by rw [hc]; decide
      have hrest : ∃ c ∈ t, c.isServiceCenter = 0 :=
        (List.exists_mem_cons_iff _ _ _).1 h |>.resolve_left hne
      obtain ⟨l₁, v, l₂, rfl, hk, hv⟩ := ih (i := i + 1) hflags hrest
      rw [if_pos hc]
      exact ⟨c :: l₁, v, l₂, rfl, hk.trans (some_add_one_add i l₁), hv.cons fun h => absurd h hne⟩

/-- Among flags that are 0 or 1, the victim is the first of the least referenced entries. -/
theorem exists_victim {t : List CacheTable}
    (hflags : ∀ c ∈ t, c.isServiceCenter = 0 ∨ c.isServiceCenter = 1)
    (h : ∃ c ∈ t, c.isServiceCenter = 0) :
    ∃ l₁ v l₂, t = l₁ ++ v :: l₂ ∧ victim t = some l₁.length ∧ LeastUsed l₁ v l₂ := by
  obtain ⟨l₁, v, l₂, ht, hk, hv⟩ := exists_victimFrom (i := 0) hflags h
  exact ⟨l₁, v, l₂, ht, hk.trans (by rw [Nat.zero_add]), hv⟩

/-! ## One call -/

/-- The per-file limit rejects the fragment. -/
def AtFileLimit (p : Params) (fileId : U32) (d : Daemon) : Prop :=
  p.kval.toInt - 1 ≤ fileCount d.ctable fileId

/-- There is room for a fragment, or an entry to give up. -/
def HasRoom (p : Params) (d : Daemon) : Prop :=
  d.ctLen < p.bufSize.toInt ∨ ∃ c ∈ d.ctable, c.isServiceCenter ≠ 1

instance : Decidable (AtFileLimit p fileId d) := inferInstanceAs (Decidable (_ ≤ _))

instance : Decidable (HasRoom p d) := inferInstanceAs (Decidable (_ ∨ _))

/-- `create_cache` has put the fragment in front of the entries that have not been given up. -/
def Added (fileId fragId : U32) (d e : Daemon) : Prop :=
  ∃ t gone, e.ctable = { fileId := fileId, fragId := fragId, refs := 0, isServiceCenter := 0 } ::
    t ∧
    e.freed = d.freed ++ gone ∧ (t ++ gone).Perm d.ctable

/-- The fragment has been added, or `ctable`, `ct_len` and `cPrefetch` are as before. -/
def AllOrNothing (fileId fragId : U32) (d e : Daemon) : Prop :=
  Added fileId fragId d e ∨ e.ctable = d.ctable ∧ e.ctLen = d.ctLen ∧ e.cPrefetch = d.cPrefetch

/-- The entries that have been created: they are listed, or they have been freed. -/
def created (d : Daemon) : ℕ := d.ctable.length + d.freed.length

theorem Added.created (h : Added fileId fragId d e) : created e = created d + 1 := by
  obtain ⟨t, gone, ht, hfreed, hperm⟩ := h
  have hlen := hperm.length_eq
  rw [List.length_append] at hlen
  simp only [Caching.created, ht, hfreed, List.length_cons, List.length_append]
  omega

theorem created_removeCache {i : ℕ} (h : i < d.ctable.length) :
    created (removeCache i d) = created d := by
  simp only [created, removeCache, List.length_eraseIdx_of_lt h, List.length_append,
    List.getElem?_eq_getElem h, Option.toList_some, List.length_singleton]
  omega

theorem succ_ne_self (x : U32) : x + 1 ≠ x := by
  intro h
  simp at h

/-- What a call does: nothing at the limit, else it counts the fragment, which it adds if it can. -/
theorem retrieveFrag_spec (p : Params) (ok : Bool) (fileId fragId : U32) (d : Daemon) :
    AtFileLimit p fileId d ∧ (retrieveFrag p ok fileId fragId d).2 = d ∨
    ¬AtFileLimit p fileId d ∧ (retrieveFrag p ok fileId fragId d).2.cPrefetch = d.cPrefetch + 1 ∧
      ((ok = true ∧ HasRoom p d ∧ Added fileId fragId d (retrieveFrag p ok fileId fragId d).2) ∨
        ¬(ok = true ∧ HasRoom p d) ∧ created (retrieveFrag p ok fileId fragId d).2 =
        created d) := by
  rcases retrieveFrag_cases p ok fileId fragId d with ⟨hlimit, hd⟩ | ⟨hlimit, e, rfl, hcase⟩
  · exact .inl ⟨hlimit, hd⟩
  refine .inr ⟨not_le.2 hlimit, ?_⟩
  rcases hcase with ⟨hroom, hd⟩ | ⟨hfull, hv, hd⟩ | ⟨hfull, i, hv, hd⟩
  · rw [hd]
    cases ok with
    | false => exact ⟨rfl, .inr ⟨by simp, rfl⟩⟩
    | true =>
        exact ⟨rfl, .inl ⟨rfl, .inl hroom, d.ctable, [], rfl, (List.append_nil _).symm, by simp⟩⟩
  · rw [hd]
    have hnone : ¬HasRoom p d := by
      rintro (hlt | ⟨c, hc, hcenter⟩)
      · omega
      · exact hcenter (victim_eq_none_iff.1 hv c hc)
    exact ⟨rfl, .inr ⟨fun h => hnone h.2, rfl⟩⟩
  · rw [hd]
    obtain ⟨c, hi, hc⟩ := exists_of_victim_eq_some hv
    have hlt : i < d.ctable.length := (List.getElem?_eq_some_iff.1 hi).1
    cases ok with
    | false =>
        exact ⟨rfl,
        .inr ⟨by simp, created_removeCache (d := { d with cPrefetch := d.cPrefetch + 1 }) hlt⟩⟩
    | true =>
      refine ⟨rfl, .inl ⟨rfl, .inr ⟨c, List.mem_of_getElem? hi, hc⟩, d.ctable.eraseIdx i, [c], rfl,
        ?_, ?_⟩⟩
      · simp [createCache, insertCache, removeCache, hi]
      · obtain ⟨hlt', rfl⟩ := List.getElem?_eq_some_iff.1 hi
        exact (List.perm_append_singleton _ _).trans (List.getElem_cons_eraseIdx_perm hlt')

/-- A call adds the fragment or changes nothing exactly if the
limit rejects it or everything is there. -/
theorem allOrNothing_retrieveFrag_iff :
    AllOrNothing fileId fragId d (retrieveFrag p ok fileId fragId d).2 ↔
    AtFileLimit p fileId d ∨ ok = true ∧ HasRoom p d := by
  rcases retrieveFrag_spec p ok fileId fragId d with ⟨hlimit, hd⟩ | ⟨hlimit, hcount,
    ⟨hok, hroom, hadd⟩ | ⟨hnot, hcreated⟩⟩
  · rw [hd]
    exact iff_of_true (.inr ⟨rfl, rfl, rfl⟩) (.inl hlimit)
  · exact iff_of_true (.inl hadd) (.inr ⟨hok, hroom⟩)
  · refine iff_of_false ?_ fun h => h.elim hlimit hnot
    rintro (hadd | ⟨-, -, hsame⟩)
    · have := hadd.created
      omega
    · rw [hcount] at hsame
      exact succ_ne_self _ hsame

/-! ## Runs -/

/-- Of the entries that have been created, `n` were there before, and `cPrefetch` counts the
others. -/
def CountsAdded (n : ℕ) (d : Daemon) : Prop :=
  ∃ k, created d = n + k ∧ d.cPrefetch = BitVec.ofNat 32 k

/-- The call of `retrieve_frag` that an operation makes: the outcome
of the allocation, and the fragment. -/
def retrieval (p : Params) (op : CacheOp) (d : Daemon) : Option (Bool × U32 × U32) :=
  match op with
  | .recvAddcache mem t => (AddCache.load p.order t.data).map fun m =>
      (mem.ok .cache 0, (convertAddcacheToHost p.order m).fileId,
        (convertAddcacheToHost p.order m).fragId)
  | .selectAgent mem t =>
      if agent p t.fileId t.fragId d = p.myIp then some (mem.ok .cache 0, t.fileId, t.fragId)
        else none
  | .recvExrep _ _ | .updateRef _ _ | .deleteCache _ _ => none

/-- The call of `retrieve_frag` that an operation makes, if it makes one, is
rejected by the limit or has everything. -/
def Served (p : Params) (op : CacheOp) (d : Daemon) : Prop :=
  ∀ ok fileId fragId, retrieval p op d = some (ok, fileId, fragId) → AtFileLimit p fileId d ∨
    ok = true ∧ HasRoom p d

/-- An operation calls `retrieve_frag` on an unchanged cache table, or creates and counts
nothing. -/
theorem cacheStep_retrieval {op : CacheOp} (h : cacheStep p op d = some e) :
    retrieval p op d = none ∧ created e = created d ∧ e.cPrefetch = d.cPrefetch ∨
    ∃ ok fileId fragId d', retrieval p op d = some (ok, fileId, fragId) ∧
    e = (retrieveFrag p ok fileId fragId d').2 ∧
      d'.ctable = d.ctable ∧ d'.ctLen = d.ctLen ∧ d'.freed = d.freed ∧
      d'.cPrefetch = d.cPrefetch := by
  cases op with
  | recvExrep mem t =>
    obtain ⟨m, -, hm⟩ := Option.bind_eq_some_iff.1 h
    obtain rfl := Option.some.inj hm
    refine .inl ⟨rfl, ?_, ?_⟩ <;> · unfold createExtable; split <;> rfl
  | recvAddcache mem t =>
    obtain ⟨m, hload, hm⟩ := Option.bind_eq_some_iff.1 h
    obtain rfl := Option.some.inj hm
    exact .inr ⟨_, _, _, d, by rw [retrieval, hload]; rfl, rfl, rfl, rfl, rfl, rfl⟩
  | selectAgent mem t =>
    obtain rfl := Option.some.inj h
    by_cases hme : agent p t.fileId t.fragId d = p.myIp
    · refine .inr ⟨_, _, _, { d with extable := expireExtable t.fileId t.fragId d.extable },
        if_pos hme, ?_, rfl, rfl,
        rfl, rfl⟩
      simp [selectAgent, hme]
    · refine .inl ⟨if_neg hme, ?_, ?_⟩ <;>
      · simp only [selectAgent, if_pos hme, genAddCache, sendMessage]
        split_ifs <;> rfl
  | updateRef fileId fragId =>
    obtain rfl := Option.some.inj h
    refine .inl ⟨rfl, ?_, rfl⟩
    simp only [created, updateRef, updateRefs, FirstMatch.length_modifyFirst]
  | deleteCache fileId fragId =>
    obtain rfl := Option.some.inj h
    refine .inl ⟨rfl, ?_⟩
    unfold deleteCache
    split
    · exact ⟨rfl, rfl⟩
    · split
      · exact ⟨rfl, rfl⟩
      · rename_i i _ _ c hi
        split
        · exact ⟨created_removeCache (List.getElem?_eq_some_iff.1 hi).1, rfl⟩
        · exact ⟨rfl, rfl⟩

theorem CountsAdded.retrieveFrag_iff {n : ℕ} (h : CountsAdded n d) :
    CountsAdded n (retrieveFrag p ok fileId fragId d).2 ↔ AtFileLimit p fileId d ∨
    ok = true ∧ HasRoom p d := by
  obtain ⟨k, hk, hcount⟩ := h
  rcases retrieveFrag_spec p ok fileId fragId d with ⟨hlimit, hd⟩ | ⟨hlimit, hc,
    ⟨hok, hroom, hadd⟩ | ⟨hnot, hcreated⟩⟩
  · rw [hd]
    exact iff_of_true ⟨k, hk, hcount⟩ (.inl hlimit)
  · refine iff_of_true ⟨k + 1, ?_, ?_⟩ (.inr ⟨hok, hroom⟩)
    · rw [hadd.created, hk, Nat.add_assoc]
    · rw [hc, hcount, BitVec.ofNat_add]
      rfl
  · refine iff_of_false ?_ fun h => h.elim hlimit hnot
    rintro ⟨k', hk', hc'⟩
    obtain rfl : k' = k := by omega
    rw [hc, hcount] at hc'
    exact succ_ne_self _ hc'

theorem CountsAdded.cacheStep_iff {n : ℕ} {op : CacheOp} (h : CountsAdded n d)
    (hs : cacheStep p op d = some e) :
    CountsAdded n e ↔ Served p op d := by
  rcases cacheStep_retrieval hs with ⟨hnone, hcreated, hcount⟩ | ⟨ok, fileId, fragId, d', hsome,
    rfl, ht, hl, hf, hc⟩
  · refine iff_of_true ?_ fun _ _ _ hsome => by simp [hnone] at hsome
    obtain ⟨k, hk, hck⟩ := h
    exact ⟨k, hcreated.trans hk, hcount.trans hck⟩
  · have h' : CountsAdded n d' := by
      obtain ⟨k, hk, hck⟩ := h
      exact ⟨k, by rw [created, ht, hf]; exact hk, hc.trans hck⟩
    have hserved : Served p op d ↔ AtFileLimit p fileId d' ∨ ok = true ∧ HasRoom p d' := by
      simp only [Served, hsome, AtFileLimit, HasRoom, ht, hl, Option.some.injEq, Prod.mk.injEq]
      exact ⟨fun h => h _ _ _ ⟨rfl, rfl, rfl⟩, fun h _ _ _ ⟨hok, hfile, _⟩ => hok ▸ hfile ▸ h⟩
    rw [h'.retrieveFrag_iff, hserved]

/-- When a call of `retrieve_frag` leaves everything as it was unless it adds the fragment; and
when `cPrefetch` is the number of fragments that have been added throughout a run. -/
theorem prefetch_allOrNothing_iff (p : Params) :
    (∀ ok fileId fragId d, AllOrNothing fileId fragId d (retrieveFrag p ok fileId fragId d).2 ↔
      AtFileLimit p fileId d ∨ ok = true ∧ HasRoom p d) ∧
    ∀ n ops d e, CountsAdded n d → exec (cacheStep p) ops d = some e →
      (Along (cacheStep p) (CountsAdded n) ops d ↔ AllSteps (cacheStep p) (Served p) ops d) :=
  ⟨fun _ _ _ _ => allOrNothing_retrieveFrag_iff, fun _ _ _ _ h he =>
    along_iff_allSteps (fun _ _ _ _ hs ht => hs.cacheStep_iff ht) h he⟩

instance (op : CacheOp) : Decidable (Served p op d) :=
  decidable_of_iff ((retrieval p op d).all fun call =>
      decide (AtFileLimit p call.2.1 d ∨ call.1 = true ∧ HasRoom p d)) <| by
    simp only [Option.all_eq_true, decide_eq_true_eq, Prod.forall, Served]

/-- A full table with one service center. -/
def fullTable : Daemon := createCaches [⟨true, 1, 1, 1⟩, ⟨true, 2, 1, 0⟩, ⟨true, 3, 1, 0⟩] {}

theorem prefetch_allOrNothing_fullTable :
    Along (cacheStep testNode) (CountsAdded 3)
      [.selectAgent .plenty (createTask .addCacheSend ⟨0, 0⟩)] fullTable := by
  have hsome : (exec (cacheStep testNode) [.selectAgent .plenty (createTask .addCacheSend ⟨0, 0⟩)]
      fullTable).isSome = true := by decide +kernel
  obtain ⟨e, he⟩ := Option.isSome_iff_exists.1 hsome
  exact ((prefetch_allOrNothing_iff testNode).2 3 _ _ e ⟨0, rfl, rfl⟩ he).2 (by decide +kernel)

/-- All entries are service centers: the fragment is counted, and not fetched. -/
theorem not_allOrNothing_centers : ¬ ∀ (p : Params) (ok : Bool) (fileId fragId : U32) (d : Daemon),
    AllOrNothing fileId fragId d (retrieveFrag p ok fileId fragId d).2 := by
  intro h
  rcases h testNode true 4 1 (createCaches [⟨true, 1, 1, 1⟩, ⟨true, 2, 1, 1⟩,
    ⟨true, 3, 1, 1⟩] {}) with hadd | ⟨-, -, hcount⟩
  · exact absurd hadd.created (by decide +kernel)
  · exact absurd hcount (by decide +kernel)

/-- Without memory for the new entry, the victim is gone all the same. -/
example : (retrieveFrag testNode false 4 1 fullTable).2.ctable.length = 2 := by decide +kernel

end MobileCloudCaching.Caching
