import MobileCloudCaching.Caching.Prefetch
import MobileCloudCaching.Library.Doubly
import Mathlib.Data.List.MinMax
import Mathlib.Order.Nat

/-!
# The cache table in memory (`cacheTable.c`, `cExchange.c`)

The entries are cells of a doubly linked list that hangs on `ctable`.  `retrieve_frag` goes through
the list three times: to count the fragments of the file, and twice for the entry to give up.  A
loop that meets more cells than there are has no end.
-/

namespace MobileCloudCaching.Caching.InMemory

open Linked Doubly

abbrev CacheCell : Type := Cell CacheTable

/-- Where an entry has `prev` and `next`. -/
abbrev cell : Layout CacheCell CacheTable := Cell.layout CacheTable

structure Cache where
  mem : Memory CacheCell := {}
  ctable : Option ℕ := none
  ctLen : ℤ := 0
  cPrefetch : U32 := 0
  deriving DecidableEq

/-- `kmalloc` finds free memory for an entry, or none. -/
structure Kmalloc where
  find : Memory CacheCell → Option ℕ
  free : ∀ m a, find m = some a → m.get a = none

/-! ## The code -/

def insertCache (newCache : ℕ) (s : Cache) : Option Cache := do
  let (mem, ctable) ← cell.push newCache s.mem s.ctable
  return { s with mem := mem, ctable := ctable, ctLen := s.ctLen + 1 }

def createCache (kmalloc : Kmalloc) (fileId fragId flag : U32) (s : Cache) : Option Cache :=
  match kmalloc.find s.mem with
  | none => some s
  | some a =>
    let entry : CacheTable :=
      { fileId := fileId, fragId := fragId, refs := 0, isServiceCenter := flag }
    insertCache a { s with mem := s.mem.alloc a { val := entry, prev := none, next := none } }

def removeCache (deadCache : ℕ) (s : Cache) : Option Cache := do
  let (mem, ctable) ← cell.remove deadCache s.mem s.ctable
  return { s with mem := mem, ctable := ctable, ctLen := s.ctLen - 1 }

def findCacheByFl (head : Option ℕ) (fileId : U32) (m : Memory CacheCell) : Option (Option ℕ) :=
  cell.skip (fun c => c.fileId != fileId) head m

/-- The counting loop of `retrieve_frag`. -/
def countFl (kval : ℤ) (fileId : U32) (m : Memory CacheCell) : ℕ → ℕ → Option ℕ → Option ℕ
  | _, count, none => some count
  | 0, _, some _ => none
  | fuel + 1, count, some tmpCache =>
    if (count : ℤ) < kval then do
      let tmp ← m.get tmpCache
      countFl kval fileId m fuel (count + 1) (← findCacheByFl tmp.next fileId m)
    else some count

/-- The loop of `retrieve_frag` that looks for fewer references. -/
def minScan (m : Memory CacheCell) : ℕ → ℕ → U32 → Option ℕ → Option ℕ
  | _, minCache, _, none => some minCache
  | 0, _, _, some _ => none
  | fuel + 1, minCache, minRef, some tmpCache => do
    let tmp ← m.get tmpCache
    if tmp.val.refs < minRef ∧ tmp.val.isServiceCenter = 0 then
      minScan m fuel tmpCache tmp.val.refs tmp.next
    else minScan m fuel minCache minRef tmp.next

/-- `retrieve_frag`, which returns a number. -/
def retrieveFrag (p : Params) (kmalloc : Kmalloc) (fileId fragId : U32)
    (s : Cache) : Option (ℤ × Cache) := do
  let first ← findCacheByFl s.ctable fileId s.mem
  let count ← countFl p.kval.toInt fileId s.mem s.mem.cells.length 0 first
  if (count : ℤ) ≥ p.kval.toInt - 1 then return (1, s)
  let s := { s with cPrefetch := s.cPrefetch + 1 }
  if s.ctLen ≥ p.bufSize.toInt then
    match ← cell.skip (fun c => c.isServiceCenter == 1) s.ctable s.mem with
    | none => return (1, s)
    | some minCache =>
      let min ← s.mem.get minCache
      let minCache ← minScan s.mem s.mem.cells.length minCache min.val.refs min.next
      return (0, ← createCache kmalloc fileId fragId 0 (← removeCache minCache s))
  else return (0, ← createCache kmalloc fileId fragId 0 s)

/-! ## What the code does to the list -/

/-- The entries of `l`, and no others, are in the table. -/
abbrev Holds (s : Cache) (l : List (ℕ × CacheTable)) : Prop := cell.Holds s.mem s.ctable l

variable {p : Params} {kmalloc : Kmalloc} {s : Cache} {l t : List (ℕ × CacheTable)}
    {fileId fragId : U32}
  {m : Memory CacheCell} {b : Option ℕ}

/-- The counting loop counts the entries that the loop over the list meets. -/
theorem countFl_run (kval : ℤ) (fileId : U32) (count : ℕ) {fuel : ℕ}
    (h : cell.Run m b (firstOf t none) t none) (hcells : t.length ≤ m.cells.length)
    (hfuel : t.length ≤ fuel) :
    countFl kval fileId m fuel count (firstOf (t.dropWhile fun c => c.2.fileId != fileId) none) =
      some (count + (heldFrags kval fileId (t.map Prod.snd) count).length) := by
  induction t generalizing b fuel count with
  | nil => cases fuel <;> rfl
  | cons c t ih =>
    obtain ⟨a, x⟩ := c
    obtain ⟨n, hget, -, hnext, hrun⟩ := Cell.uncons h
    have hcells' : t.length ≤ m.cells.length := Nat.le_of_succ_le hcells
    by_cases hfile : x.fileId = fileId
    · rw [List.dropWhile_cons_of_neg (by simpa using hfile), List.map_cons, heldFrags,
        if_pos hfile, firstOf_cons]
      cases fuel with
      | zero => exact absurd hfuel (Nat.not_succ_le_zero _)
      | succ fuel =>
        have hfind : findCacheByFl n.next fileId m =
            some (firstOf (t.dropWhile fun c => c.2.fileId != fileId) none) :=
          hnext ▸ hrun.skip hcells' _
        rw [countFl]
        by_cases hk : (count : ℤ) < kval
        · rw [if_pos hk, if_pos hk, hget]
          simp only [Option.bind_eq_bind, Option.bind_some, hfind]
          rw [ih (count + 1) hrun hcells' (Nat.le_of_succ_le_succ hfuel), List.length_cons]
          congr 1
          omega
        · rw [if_neg hk, if_neg hk]
          rfl
    · rw [List.dropWhile_cons_of_pos (by simpa using hfile), List.map_cons, heldFrags, if_neg hfile]
      exact ih count hrun hcells' (Nat.le_of_succ_le hfuel)

/-- The scan for fewer references comes to the entry that the scan of the list comes to. -/
theorem minScan_run (minRef : U32) {fuel i j a : ℕ} {x : CacheTable}
    (h : cell.Run m b (firstOf t none) t none) (hfuel : t.length ≤ fuel) (hi : l.drop i = t)
    (hj : l[j]? = some (a, x)) :
    ∃ k c, victimFrom (t.map Prod.snd) i (some (j, minRef)) = some k ∧ l[k]? = some c ∧
      minScan m fuel a minRef (firstOf t none) = some c.1 := by
  induction t generalizing b fuel i j a x minRef with
  | nil => exact ⟨j, _, rfl, hj, by cases fuel <;> rfl⟩
  | cons c t ih =>
    obtain ⟨a', y⟩ := c
    obtain ⟨n, hget, hy, hnext, hrun⟩ := Cell.uncons h
    have hi' : l[i]? = some (a', y) := by
      rw [← List.head?_drop, hi]
      rfl
    have hdrop : l.drop (i + 1) = t := by rw [← List.drop_drop, hi]; rfl
    cases fuel with
    | zero => exact absurd hfuel (Nat.not_succ_le_zero _)
    | succ fuel =>
      have hfuel := Nat.le_of_succ_le_succ hfuel
      rw [firstOf_cons, minScan, List.map_cons, victimFrom, hget]
      simp only [Option.bind_eq_bind, Option.bind_some, hy, hnext]
      by_cases hless : y.refs < minRef ∧ y.isServiceCenter = 0
      · rw [if_pos hless, if_pos hless]
        exact ih _ hrun hfuel hdrop hi'
      · rw [if_neg hless, if_neg hless]
        exact ih _ hrun hfuel hdrop hj

/-- The first scan stops where the scan of the list finds its first candidate. -/
theorem victimFrom_dropWhile (t : List CacheTable) (i : ℕ) :
    victimFrom t i none = match t.dropWhile fun c => c.isServiceCenter == 1 with
      | [] => none
      | c :: t' => victimFrom t' (i + (t.takeWhile fun c => c.isServiceCenter == 1).length + 1)
          (some (i + (t.takeWhile fun c => c.isServiceCenter == 1).length, c.refs)) := by
  induction t generalizing i with
  | nil => rfl
  | cons c t ih =>
    rw [victimFrom]
    by_cases hc : c.isServiceCenter = 1
    · rw [if_pos hc, ih, List.dropWhile_cons_of_pos (by simpa using hc),
        List.takeWhile_cons_of_pos (by simpa using hc), List.length_cons,
        Nat.add_assoc i 1, Nat.add_comm 1]
    · rw [if_neg hc, List.dropWhile_cons_of_neg (by simpa using hc),
        List.takeWhile_cons_of_neg (by simpa using hc)]
      rfl

/-- The two scans over the cells. -/
theorem scans_eq (h : Holds s l) :
    cell.skip (fun c => c.isServiceCenter == 1) s.ctable s.mem = some none ∧
    victim (l.map Prod.snd) = none ∨
    ∃ minCache min k c, cell.skip (fun c => c.isServiceCenter == 1) s.ctable s.mem =
    some (some minCache) ∧
      s.mem.get minCache = some min ∧ victim (l.map Prod.snd) = some k ∧ l[k]? = some c ∧
      minScan s.mem s.mem.cells.length minCache min.val.refs min.next = some c.1 := by
  have hrun := h.start
  have hskip := hrun.skip h.length_le fun c => c.isServiceCenter == 1
  rw [← h.head_eq] at hskip
  have hvictim := victimFrom_dropWhile (l.map Prod.snd) 0
  rw [List.dropWhile_map, List.takeWhile_map] at hvictim
  simp only [Function.comp_def, List.length_map, Nat.zero_add] at hvictim
  have hsplit := l.takeWhile_append_dropWhile (p := fun c => c.2.isServiceCenter == 1)
  generalize hl₁ : l.takeWhile (fun c => c.2.isServiceCenter == 1) = l₁ at hvictim hsplit
  generalize hl₂ : l.dropWhile (fun c => c.2.isServiceCenter == 1) = l₂ at hskip hvictim hsplit
  cases l₂ with
  | nil => exact .inl ⟨hskip, hvictim⟩
  | cons c l₂ =>
    obtain ⟨a, x⟩ := c
    obtain ⟨hcell, hlen⟩ := (hsplit.symm ▸ h : Holds s (l₁ ++ (a, x) :: l₂)).suffix
    obtain ⟨n, hget, rfl, hnext, hrest⟩ := Cell.uncons hcell
    have hlen : l₂.length ≤ s.mem.cells.length := Nat.le_of_succ_le hlen
    have hdrop : l.drop (l₁.length + 1) = l₂ := by
      rw [← hsplit, ← List.drop_drop, List.drop_left]
      rfl
    have hat : l[l₁.length]? = some (a, n.val) := by simp [← hsplit]
    obtain ⟨k, c, hk, hc, hscan⟩ := minScan_run n.val.refs hrest hlen hdrop hat
    exact .inr ⟨a, n, k, c, hskip, hget, hvictim.trans hk, hc, hnext ▸ hscan⟩

/-- The table `t` is `s` with a new entry in front of those of `l`. -/
structure Created (fileId fragId flag : U32) (s : Cache) (l : List (ℕ × CacheTable))
    (t : Cache) : Prop where
  holds : ∃ a,
    Holds t ((a, { fileId := fileId, fragId := fragId, refs := 0, isServiceCenter := flag }) :: l)
  ctLen : t.ctLen = s.ctLen + 1
  cPrefetch : t.cPrefetch = s.cPrefetch

theorem createCache_spec (h : Holds s l) (kmalloc : Kmalloc) (fileId fragId flag : U32) :
    kmalloc.find s.mem = none ∧ createCache kmalloc fileId fragId flag s = some s ∨
    (kmalloc.find s.mem).isSome = true ∧
      ∃ t, createCache kmalloc fileId fragId flag s = some t ∧ Created fileId fragId
        flag s l t := by
  unfold createCache
  cases ha : kmalloc.find s.mem with
  | none => exact .inl ⟨rfl, rfl⟩
  | some a =>
    have hfree := kmalloc.free _ _ ha
    let entry : CacheTable :=
      { fileId := fileId, fragId := fragId, refs := 0, isServiceCenter := flag }
    have hnew : (s.mem.alloc a { val := entry, prev := none, next := none }).get a =
        some { val := entry, prev := none, next := none } := Memory.get_alloc_self
    obtain ⟨w, hpush, hholds⟩ :=
      (h.alloc hfree).push hnew (h.not_mem hfree) (x := entry) rfl rfl rfl
    refine .inr ⟨rfl, { s with mem := w, ctable := some a, ctLen := s.ctLen + 1 }, ?_,
      ⟨a, hholds⟩, rfl, rfl⟩
    unfold insertCache
    dsimp only
    rw [hpush]
    rfl

theorem removeCache_spec {c : ℕ × CacheTable} {k : ℕ} (h : Holds s l) (hc : l[k]? = some c) :
    ∃ t, removeCache c.1 s = some t ∧ Holds t (l.eraseIdx k) ∧ t.ctLen = s.ctLen - 1 ∧
    t.cPrefetch = s.cPrefetch := by
  obtain ⟨hk, rfl⟩ := List.getElem?_eq_some_iff.1 hc
  have hsplit : l = l.take k ++ (l[k].1, l[k].2) :: l.drop (k + 1) := by
    rw [← List.drop_eq_getElem_cons hk, List.take_append_drop]
  obtain ⟨w, q, hrem, hholds⟩ :=
    (hsplit ▸ h : Holds s (l.take k ++ (l[k].1, l[k].2) :: l.drop (k + 1))).remove
  refine ⟨{ s with mem := w, ctable := q, ctLen := s.ctLen - 1 }, ?_, ?_, rfl, rfl⟩
  · rw [removeCache, hrem]
    rfl
  · rw [List.eraseIdx_eq_take_drop_succ]
    exact hholds

/-- A call of `retrieve_frag`, by the cases of the function on the list. -/
theorem retrieveFrag_spec (h : Holds s l) (p : Params) (kmalloc : Kmalloc) (fileId fragId : U32) :
    p.kval.toInt - 1 ≤ fileCount (l.map Prod.snd) fileId ∧
    retrieveFrag p kmalloc fileId fragId s = some (1, s) ∨
    (fileCount (l.map Prod.snd) fileId : ℤ) < p.kval.toInt - 1 ∧
      ∃ e : Cache, e = { s with cPrefetch := s.cPrefetch + 1 } ∧
        ((s.ctLen < p.bufSize.toInt ∧ retrieveFrag p kmalloc fileId fragId s =
            (createCache kmalloc fileId fragId 0 e).map fun t => (0, t)) ∨
          (p.bufSize.toInt ≤ s.ctLen ∧ victim (l.map Prod.snd) = none ∧
            retrieveFrag p kmalloc fileId fragId s = some (1, e)) ∨
          (p.bufSize.toInt ≤ s.ctLen ∧ ∃ i t, victim (l.map Prod.snd) = some i ∧
          Holds t (l.eraseIdx i) ∧
            t.ctLen = s.ctLen - 1 ∧ t.cPrefetch = s.cPrefetch + 1 ∧
            retrieveFrag p kmalloc fileId fragId s =
              (createCache kmalloc fileId fragId 0 t).map fun t => (0, t))) := by
  have hrun := h.start
  have hfirst : findCacheByFl s.ctable fileId s.mem =
      some (firstOf (l.dropWhile fun c => c.2.fileId != fileId) none) :=
    h.head_eq ▸ hrun.skip h.length_le _
  have hcount := countFl_run p.kval.toInt fileId 0 hrun h.length_le h.length_le
  rw [Nat.zero_add] at hcount
  have hlimit := length_heldFrags_ge_iff p.kval.toInt fileId (l.map Prod.snd)
  unfold retrieveFrag
  simp only [hfirst, hcount, Option.bind_eq_bind, Option.bind_some, Option.pure_def]
  by_cases hk : ((heldFrags p.kval.toInt fileId (l.map Prod.snd) 0).length : ℤ) ≥ p.kval.toInt - 1
  · exact .inl ⟨hlimit.1 hk, if_pos hk⟩
  refine .inr ⟨not_le.1 (mt hlimit.2 hk), _, rfl, ?_⟩
  rw [if_neg hk]
  by_cases hfull : s.ctLen ≥ p.bufSize.toInt
  · rw [if_pos hfull]
    rcases scans_eq h with ⟨hskip, hvictim⟩ | ⟨minCache, min, k, c, hskip, hget, hvictim, hc, hscan⟩
    · rw [hskip]
      exact .inr (.inl ⟨hfull, hvictim, rfl⟩)
    · obtain ⟨t, hrem, hholds, hlen, hpre⟩ :=
        removeCache_spec (s := { s with cPrefetch := s.cPrefetch + 1 }) h hc
      refine .inr (.inr ⟨hfull, k, t, hvictim, hholds, hlen, hpre, ?_⟩)
      simp only [hskip, Option.bind_some, hget, hscan, hrem]
      exact Option.map_eq_bind.symm
  · rw [if_neg hfull]
    exact .inl ⟨not_le.1 hfull, Option.map_eq_bind.symm⟩

/-! ## The table as a list -/

/-- The daemon's list holds the entries of the table, and its numbers are the same. -/
structure Follows (s : Cache) (l : List (ℕ × CacheTable)) (d : Daemon) : Prop where
  holds : Holds s l
  ctable : d.ctable = l.map Prod.snd
  ctLen : d.ctLen = s.ctLen
  cPrefetch : d.cPrefetch = s.cPrefetch

theorem Follows.createCache {d : Daemon} {ok : Bool} (h : Follows s l d)
    (hok : ∀ m, (kmalloc.find m).isSome = ok) (fileId fragId flag : U32) :
    ∃ t l', createCache kmalloc fileId fragId flag s = some t ∧
      Follows t l' (Caching.createCache ok fileId fragId flag d) := by
  rcases createCache_spec h.holds kmalloc fileId fragId flag with ⟨hnone, ht⟩ | ⟨hsome, t, ht,
    ⟨a, hholds⟩, hlen, hpre⟩
  · obtain rfl : false = ok := by rw [← hok s.mem, hnone]; rfl
    exact ⟨s, l, ht, h⟩
  · obtain rfl : true = ok := by rw [← hok s.mem, hsome]
    exact ⟨t, _, ht, hholds, congrArg _ h.ctable, (congrArg (· + 1) h.ctLen).trans hlen.symm,
      h.cPrefetch.trans hpre.symm⟩

/-- `retrieve_frag` does to the table in memory what it does to the list. -/
theorem Follows.retrieveFrag {d : Daemon} {ok : Bool} (h : Follows s l d)
    (hok : ∀ m, (kmalloc.find m).isSome = ok) (p : Params) (fileId fragId : U32) :
    ∃ t l', retrieveFrag p kmalloc fileId fragId s =
    some ((Caching.retrieveFrag p ok fileId fragId d).1, t) ∧
      Follows t l' (Caching.retrieveFrag p ok fileId fragId d).2 := by
  have hlimit := length_heldFrags_ge_iff p.kval.toInt fileId d.ctable
  have hcounted : Follows { s with cPrefetch := s.cPrefetch + 1 } l
      { d with cPrefetch := d.cPrefetch + 1 } :=
    ⟨h.holds, h.ctable, h.ctLen, congrArg (· + 1) h.cPrefetch⟩
  unfold Caching.retrieveFrag
  rcases retrieveFrag_spec h.holds p kmalloc fileId fragId with ⟨hk, hs⟩ | ⟨hk, e, rfl, hcase⟩
  · rw [← h.ctable] at hk
    rw [if_pos (hlimit.2 hk)]
    exact ⟨s, l, hs, h⟩
  rw [← h.ctable] at hk
  rw [if_neg (mt hlimit.1 (not_le.2 hk))]
  rcases hcase with ⟨hroom, hs⟩ | ⟨hfull, hv, hs⟩ | ⟨hfull, i, t, hv, hholds, hlen, hpre, hs⟩
  · obtain ⟨t, l', ht, hf⟩ := hcounted.createCache hok fileId fragId 0
    rw [← h.ctLen] at hroom
    simp only [if_neg (not_le.2 hroom)]
    exact ⟨t, l', hs.trans (by rw [ht]; rfl), hf⟩
  · rw [← h.ctLen] at hfull
    rw [← h.ctable] at hv
    simp only [ge_iff_le, if_pos hfull, hv]
    exact ⟨_, l, hs, hcounted⟩
  · rw [← h.ctLen] at hfull
    rw [← h.ctable] at hv
    have hremoved : Follows t (l.eraseIdx i)
        (Caching.removeCache i { d with cPrefetch := d.cPrefetch + 1 }) := by
      refine ⟨hholds, ?_, ?_, (congrArg (· + 1) h.cPrefetch).trans hpre.symm⟩
      · rw [Caching.removeCache, h.ctable, List.eraseIdx_map]
      · rw [hlen, ← h.ctLen]
        rfl
    obtain ⟨u, l', hu, hf⟩ := hremoved.createCache hok fileId fragId 0
    simp only [ge_iff_le, if_pos hfull, hv]
    exact ⟨u, l', hs.trans (by rw [hu]; rfl), hf⟩

/-! ## Eviction -/

/-- The table is well formed: its cells lead to and back from each other, `ct_len`
counts them, and the flags are flags. -/
structure WellFormed (s : Cache) (l : List (ℕ × CacheTable)) : Prop where
  holds : Holds s l
  ctLen : s.ctLen = l.length
  flags : ∀ c ∈ l, c.2.isServiceCenter = 0 ∨ c.2.isServiceCenter = 1

theorem Created.wellFormed {s' : Cache} (h : Created fileId fragId 0 s l s')
    (hlen : s.ctLen = l.length)
    (hflags : ∀ c ∈ l, c.2.isServiceCenter = 0 ∨ c.2.isServiceCenter = 1) :
    ∃ a, WellFormed
      s' ((a, { fileId := fileId, fragId := fragId, refs := 0, isServiceCenter := 0 }) :: l) := by
  obtain ⟨a, hholds⟩ := h.holds
  refine ⟨a, hholds, ?_, List.forall_mem_cons.2 ⟨.inl rfl, hflags⟩⟩
  rw [h.ctLen, hlen, List.length_cons]
  rfl

theorem createCache_of_isSome {s : Cache} (h : Holds s l) (hmem :
      ∀ m, (kmalloc.find m).isSome = true)
    (fileId fragId flag : U32) :
    ∃ t, createCache kmalloc fileId fragId flag s = some t ∧ Created fileId fragId flag s l t := by
  rcases createCache_spec h kmalloc fileId fragId flag with ⟨hnone, -⟩ | ⟨-, ht⟩
  · exact absurd (hmem s.mem) (by simp [hnone])
  · exact ht

/-- The victim of a well-formed table, with its cell. -/
theorem WellFormed.exists_victim (h : WellFormed s l) (hex : ∃ c ∈ l, c.2.isServiceCenter = 0) :
    ∃ l₁ v l₂, l = l₁ ++ v :: l₂ ∧ victim (l.map Prod.snd) = some l₁.length ∧
      LeastUsed (l₁.map Prod.snd) v.2 (l₂.map Prod.snd) := by
  obtain ⟨t₁, v, t₂, ht, hv, hleast⟩ := Caching.exists_victim (t := l.map Prod.snd)
    (fun x hx => by
      obtain ⟨c, hc, rfl⟩ := List.mem_map.1 hx
      exact h.flags c hc)
    (by
      obtain ⟨c, hc, hflag⟩ := hex
      exact ⟨c.2, List.mem_map_of_mem hc, hflag⟩)
  obtain ⟨l₁, l', rfl, rfl, hl'⟩ := List.map_eq_append_iff.1 ht
  obtain ⟨c, l₂, rfl, rfl, rfl⟩ := List.map_eq_cons_iff.1 hl'
  exact ⟨l₁, c, l₂, rfl, by rw [hv, List.length_map], hleast⟩

/-- `retrieve_frag` gives up nothing while there is room, and else the first of the least
referenced entries that are not service centers; the fragment goes in front of the others. -/
theorem retrieveFrag_evicts (h : WellFormed s l) (hmem : ∀ m, (kmalloc.find m).isSome = true)
    (hlimit : (fileCount (l.map Prod.snd) fileId : ℤ) < p.kval.toInt - 1) :
    ∃ r t l', retrieveFrag p kmalloc fileId fragId s = some (r, t) ∧ WellFormed t l' ∧
      (s.ctLen < p.bufSize.toInt →
        ∃ a, l' =
          (a, { fileId := fileId, fragId := fragId, refs := 0, isServiceCenter := 0 }) :: l) ∧
      (p.bufSize.toInt ≤ s.ctLen → (∃ c ∈ l, c.2.isServiceCenter = 0) →
        ∃ a l₁ v l₂, l = l₁ ++ v :: l₂ ∧ LeastUsed (l₁.map Prod.snd) v.2 (l₂.map Prod.snd) ∧
          l' = (a, { fileId := fileId, fragId := fragId, refs := 0, isServiceCenter := 0 }) ::
            (l₁ ++ l₂)) := by
  rcases retrieveFrag_spec h.holds p kmalloc fileId fragId with ⟨hk, -⟩ | ⟨-, e, rfl, hcase⟩
  · omega
  rcases hcase with ⟨hroom, hs⟩ | ⟨hfull, hv, hs⟩ | ⟨hfull, i, t, hv, hholds, hlen, -, hs⟩
  · obtain ⟨t, ht, hcreated⟩ := createCache_of_isSome (s := { s with cPrefetch := s.cPrefetch + 1 })
      h.holds hmem fileId fragId 0
    obtain ⟨a, hwf⟩ := hcreated.wellFormed h.ctLen h.flags
    refine ⟨0, t, _, hs.trans (by rw [ht]; rfl), hwf, fun _ => ⟨a, rfl⟩, fun hfull => ?_⟩
    omega
  · refine ⟨1, _, l, hs, ⟨h.holds, h.ctLen, h.flags⟩, fun hroom => ?_, fun _ hex => ?_⟩
    · omega
    · obtain ⟨l₁, v, l₂, -, hsome, -⟩ := h.exists_victim hex
      rw [hv] at hsome
      cases hsome
  · obtain ⟨u, hu, hcreated⟩ := createCache_of_isSome hholds hmem fileId fragId 0
    have hi : i < l.length := by
      obtain ⟨c, hc, -⟩ := exists_of_victim_eq_some hv
      simpa using (List.getElem?_eq_some_iff.1 hc).1
    obtain ⟨a, hwf⟩ := hcreated.wellFormed
      (by rw [hlen, h.ctLen, List.length_eraseIdx_of_lt hi]; omega)
      fun c hc => h.flags c (List.mem_of_mem_eraseIdx hc)
    refine ⟨0, u, _, hs.trans (by rw [hu]; rfl), hwf, fun hroom => ?_, fun _ hex => ?_⟩
    · omega
    · obtain ⟨l₁, v, l₂, rfl, hsome, hleast⟩ := h.exists_victim hex
      obtain rfl : i = l₁.length := Option.some.inj (hv.symm.trans hsome)
      exact ⟨a, l₁, v, l₂, rfl, hleast, by rw [List.eraseIdx_append_of_length_le le_rfl]; simp⟩

/-- Memory behind all that is in use. -/
def Kmalloc.ascending : Kmalloc where
  find m := some ((m.cells.map Prod.fst).foldr max 0 + 1)
  free m a h := by
    obtain rfl := Option.some.inj h
    cases hget : m.get ((m.cells.map Prod.fst).foldr max 0 + 1) with
    | none => rfl
    | some n =>
        exact absurd (List.le_max_of_le (Memory.mem_of_get hget) le_rfl) (Nat.not_succ_le_self _)

/-- A full table: a service center, and two entries of which the second has fewer references. -/
def fullCache : Cache where
  mem := ⟨[(1, { val := ⟨1, 1, 0, 1⟩, prev := none, next := some 2 }),
    (2, { val := ⟨2, 1, 5, 0⟩, prev := some 1, next := some 3 }),
    (3, { val := ⟨3, 1, 4, 0⟩, prev := some 2, next := none })]⟩
  ctable := some 1
  ctLen := 3

theorem wellFormed_fullCache :
    WellFormed fullCache [(1, ⟨1, 1, 0, 1⟩), (2, ⟨2, 1, 5, 0⟩), (3, ⟨3, 1, 4, 0⟩)] where
  holds := by
    have h₁ : fullCache.mem.get 1 = some { val := ⟨1, 1, 0, 1⟩, prev := none, next := some 2 } :=
      rfl
    have h₂ : fullCache.mem.get 2 = some { val := ⟨2, 1, 5, 0⟩, prev := some 1, next := some 3 } :=
      rfl
    have h₃ : fullCache.mem.get 3 = some { val := ⟨3, 1, 4, 0⟩, prev := some 2, next := none } :=
      rfl
    exact ⟨.cons' h₁ rfl rfl (.cons' h₂ rfl rfl (.cons' h₃ rfl rfl (.nil _ _))), by decide⟩
  ctLen := rfl
  flags := by decide

theorem retrieveFrag_evicts_fullCache :
    ∃ r t l', retrieveFrag testNode .ascending 4 1 fullCache = some (r, t) ∧
    WellFormed t l' ∧ ∃ a l₁ v l₂,
      [(1, ⟨1, 1, 0, 1⟩), (2, ⟨2, 1, 5, 0⟩), (3, ⟨3, 1, 4, 0⟩)] = l₁ ++ v :: l₂ ∧
      LeastUsed (l₁.map Prod.snd) v.2 (l₂.map Prod.snd) ∧ l' = (a, ⟨4, 1, 0, 0⟩) :: (l₁ ++ l₂) := by
  have hlimit : (fileCount [⟨1, 1, 0, 1⟩, ⟨2, 1, 5, 0⟩, ⟨3, 1, 4, 0⟩] 4 : ℤ)
    < testNode.kval.toInt - 1 := by decide
  have hmem : ∀ m, (Kmalloc.ascending.find m).isSome = true := fun _ => rfl
  obtain ⟨r, t, l', ht, hwf, -, hevict⟩ := retrieveFrag_evicts wellFormed_fullCache hmem hlimit
  exact ⟨r, t, l', ht, hwf, hevict (by decide) (by decide)⟩

example : (retrieveFrag testNode .ascending 4 1 fullCache).map (fun r =>
    Linked.toList Cell.val Cell.next r.2.mem 3 r.2.ctable) =
    some [(3, ⟨4, 1, 0, 0⟩), (1, ⟨1, 1, 0, 1⟩), (2, ⟨2, 1, 5, 0⟩)] := by decide +kernel

end MobileCloudCaching.Caching.InMemory
