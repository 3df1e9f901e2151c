import MobileCloudCaching.Caching.Exchange
import MobileCloudCaching.Library.Transition

/-!
# What the cache table holds

The limits of the cache table over whole runs: `ct_len` is the length of the list, the table and the
number of fragments of a file stay within their limits, and service centers stay for ever.
-/

namespace MobileCloudCaching.Caching

open Transition

/-- The keys of the service centers, in list order. -/
def centers (t : List CacheTable) : List (U32 × U32) :=
  (t.filter fun c => c.isServiceCenter == 1).map CacheTable.key

/-- The operations on the cache table. -/
inductive CacheOp
  | recvExrep (mem : Mem) (t : Task)
  | recvAddcache (mem : Mem) (t : Task)
  | selectAgent (mem : Mem) (t : Task)
  | updateRef (fileId fragId : U32)
  | deleteCache (fileId fragId : U32)

def cacheStep (p : Params) : CacheOp → Daemon → Option Daemon
  | .recvExrep mem t, d => recvExrep p mem t d
  | .recvAddcache mem t, d => recvAddcache p mem t d
  | .selectAgent mem t, d => some (selectAgent p mem t d)
  | .updateRef fileId fragId, d => some (updateRef fileId fragId d)
  | .deleteCache fileId fragId, d => some (deleteCache fileId fragId d)

/-! ## Counting along the operations -/

theorem fileCount_updateRefs (t : List CacheTable) (fileId fragId f : U32) :
    fileCount (updateRefs t fileId fragId) f = fileCount t f :=
  FirstMatch.countP_modifyFirst fun _ => rfl

theorem centers_cons (c : CacheTable) (t : List CacheTable) :
    centers (c :: t) = if c.isServiceCenter = 1 then c.key :: centers t else centers t := by
  by_cases h : c.isServiceCenter = 1
  · simp [centers, h]
  · rw [if_neg h, centers, List.filter_cons_of_neg (by simpa using h)]
    rfl

theorem centers_updateRefs (t : List CacheTable) (fileId fragId : U32) :
    centers (updateRefs t fileId fragId) = centers t := by
  induction t with
  | nil => rfl
  | cons c t ih =>
    unfold updateRefs at ih ⊢
    cases h : c.matchesFr fileId fragId
    · rw [FirstMatch.modifyFirst_cons_of_neg h, centers_cons, centers_cons, ih]
    · rw [FirstMatch.modifyFirst_cons_of_pos h, centers_cons, centers_cons]
      rfl

theorem fileCount_cons (c : CacheTable) (t : List CacheTable) (f : U32) :
    fileCount (c :: t) f = fileCount t f + if c.fileId = f then 1 else 0 := by
  simp [fileCount, List.countP_cons]

theorem fileCount_eraseIdx_le (t : List CacheTable) (i : ℕ) (f : U32) :
    fileCount (t.eraseIdx i) f ≤ fileCount t f :=
  (List.eraseIdx_sublist t i).countP_le

/-- Removing an entry that is not a service center leaves the service centers. -/
theorem centers_eraseIdx {t : List CacheTable} {i : ℕ} {c : CacheTable} (hi : t[i]? = some c)
    (hc : c.isServiceCenter ≠ 1) : centers (t.eraseIdx i) = centers t := by
  induction t generalizing i with
  | nil => rfl
  | cons b t ih =>
    cases i with
    | zero =>
      obtain rfl : b = c := Option.some.inj hi
      rw [centers_cons, if_neg hc]
      rfl
    | succ i => rw [List.eraseIdx_cons_succ, centers_cons, centers_cons, ih hi]

/-! ## The invariant -/

/-- The bookkeeping of the cache table: `ct_len` counts the entries, the flags are flags, and only
entries that are no service centers have been freed. -/
structure CacheWf (d : Daemon) : Prop where
  len : d.ctLen = d.ctable.length
  flags : ∀ c ∈ d.ctable, c.isServiceCenter = 0 ∨ c.isServiceCenter = 1
  freed : ∀ c ∈ d.freed, c.isServiceCenter = 0

theorem CacheWf.createCache {d : Daemon} (h : CacheWf d) (ok : Bool) (fileId fragId : U32)
    {flag : U32} (hflag : flag = 0 ∨ flag = 1) : CacheWf (createCache ok fileId fragId flag d) := by
  cases ok with
  | false => exact h
  | true =>
    refine ⟨?_, fun c hc => ?_, h.freed⟩
    · have := h.len
      simp only [Caching.createCache, insertCache, if_true, List.length_cons]
      omega
    · rcases List.mem_cons.1 hc with rfl | hc
      · exact hflag
      · exact h.flags c hc

/-- What holds of the cache table in every state that is reached from `init`. -/
structure CacheInv (p : Params) (init d : Daemon) : Prop extends CacheWf d where
  capacity : (d.ctable.length : ℤ) ≤ max (init.ctable.length : ℤ) p.bufSize.toInt
  perFile : ∀ f, (fileCount d.ctable f : ℤ) ≤ max (fileCount init.ctable f : ℤ) (p.kval.toInt - 1)
  centers_eq : centers d.ctable = centers init.ctable

namespace CacheInv

variable {p : Params} {init d e : Daemon}

/-- The invariant looks at three components only. -/
theorem of_eq (h : CacheInv p init d) (ht : e.ctable = d.ctable) (hl : e.ctLen = d.ctLen)
    (hf : e.freed = d.freed) : CacheInv p init e where
  len := by rw [hl, ht, h.len]
  capacity := by rw [ht]; exact h.capacity
  perFile := by rw [ht]; exact h.perFile
  flags := by rw [ht]; exact h.flags
  centers_eq := by rw [ht, h.centers_eq]
  freed := by rw [hf]; exact h.freed

theorem updateRef (h : CacheInv p init d) (fileId fragId : U32) :
    CacheInv p init (updateRef fileId fragId d) where
  len := by
    rw [Caching.updateRef, updateRefs, FirstMatch.length_modifyFirst]
    exact h.len
  capacity := by
    rw [Caching.updateRef, updateRefs, FirstMatch.length_modifyFirst]
    exact h.capacity
  perFile f := by
    rw [Caching.updateRef, fileCount_updateRefs]
    exact h.perFile f
  flags c hc := by
    rcases FirstMatch.mem_modifyFirst hc with hc | ⟨b, hb, rfl⟩
    · exact h.flags c hc
    · exact h.flags b hb
  centers_eq := by rw [Caching.updateRef, centers_updateRefs, h.centers_eq]
  freed := h.freed

theorem removeCache (h : CacheInv p init d) {i : ℕ} {c : CacheTable} (hi : d.ctable[i]? = some c)
    (hc : c.isServiceCenter ≠ 1) : CacheInv p init (removeCache i d) where
  len := by
    have hlt : i < d.ctable.length := (List.getElem?_eq_some_iff.1 hi).1
    have := h.len
    simp only [Caching.removeCache, List.length_eraseIdx_of_lt hlt]
    omega
  capacity := by
    have := h.capacity
    have := (List.eraseIdx_sublist d.ctable i).length_le
    simp only [Caching.removeCache]
    omega
  perFile f := by
    have := h.perFile f
    have := fileCount_eraseIdx_le d.ctable i f
    simp only [Caching.removeCache]
    omega
  flags b hb := h.flags b (List.mem_of_mem_eraseIdx hb)
  centers_eq := by rw [Caching.removeCache, centers_eraseIdx hi hc, h.centers_eq]
  freed b hb := by
    simp only [Caching.removeCache, hi, Option.toList_some, List.mem_append,
      List.mem_singleton] at hb
    rcases hb with hb | rfl
    · exact h.freed b hb
    · exact (h.flags b (List.mem_of_getElem? hi)).resolve_right hc

/-- A prefetched fragment may be inserted while both limits leave room. -/
theorem createCache (h : CacheInv p init d) (ok : Bool) {fileId fragId : U32}
    (hlen : (d.ctable.length : ℤ) < max (init.ctable.length : ℤ) p.bufSize.toInt)
    (hfile : (fileCount d.ctable fileId : ℤ) < p.kval.toInt - 1) :
    CacheInv p init (createCache ok fileId fragId 0 d) where
  toCacheWf := h.toCacheWf.createCache ok fileId fragId (Or.inl rfl)
  capacity := by
    cases ok
    · exact h.capacity
    · simp only [Caching.createCache, insertCache, if_true, List.length_cons]
      omega
  perFile f := by
    have := h.perFile f
    cases ok
    · exact this
    · simp only [Caching.createCache, insertCache, if_true, fileCount_cons]
      split
      · rename_i hf
        subst hf
        omega
      · omega
  centers_eq := by
    cases ok
    · exact h.centers_eq
    · simp only [Caching.createCache, insertCache, if_true]
      rw [centers_cons, if_neg (show ¬(0 : U32) = 1 by decide), h.centers_eq]

/-- Replacing the victim makes exactly the room that the insertion takes. -/
theorem retrieveFrag (h : CacheInv p init d) (ok : Bool) (fileId fragId : U32) :
    CacheInv p init (retrieveFrag p ok fileId fragId d).2 := by
  rcases retrieveFrag_cases p ok fileId fragId d with ⟨-, hd⟩ | ⟨hfile, e, rfl, hcase⟩
  · rw [hd]
    exact h
  have h' : CacheInv p init { d with cPrefetch := d.cPrefetch + 1 } := h.of_eq rfl rfl rfl
  rcases hcase with ⟨hroom, hd⟩ | ⟨-, -, hd⟩ | ⟨hfull, i, hv, hd⟩
  · rw [hd]
    have := h.len
    exact h'.createCache ok (show (d.ctable.length : ℤ) < _ by omega) hfile
  · rw [hd]
    exact h'
  · rw [hd]
    obtain ⟨c, hi, hc⟩ := exists_of_victim_eq_some hv
    have hlt : i < d.ctable.length := (List.getElem?_eq_some_iff.1 hi).1
    refine (h'.removeCache hi hc).createCache ok ?_ ?_
    · have := h.capacity
      simp only [Caching.removeCache, List.length_eraseIdx_of_lt hlt]
      omega
    · have := fileCount_eraseIdx_le d.ctable i fileId
      simp only [Caching.removeCache]
      omega

theorem deleteCache (h : CacheInv p init d) (fileId fragId : U32) :
    CacheInv p init (deleteCache fileId fragId d) := by
  unfold Caching.deleteCache
  split
  · exact h
  · split
    · exact h
    · rename_i i _ _ c hi
      split
      · rename_i hc
        exact h.removeCache hi (by rw [hc]; decide)
      · exact h

/-- Every operation keeps the invariant. -/
theorem cacheStep (h : CacheInv p init d) {op : CacheOp} (hs : cacheStep p op d = some e) :
    CacheInv p init e := by
  cases op with
  | recvExrep mem t =>
    obtain ⟨m, -, hm⟩ := Option.bind_eq_some_iff.1 hs
    obtain rfl := Option.some.inj hm
    unfold createExtable
    split
    · exact h.of_eq rfl rfl rfl
    · exact h
  | recvAddcache mem t =>
    obtain ⟨m, -, hm⟩ := Option.bind_eq_some_iff.1 hs
    obtain rfl := Option.some.inj hm
    exact h.retrieveFrag _ _ _
  | selectAgent mem t =>
    obtain rfl := Option.some.inj hs
    obtain ⟨-, rfl, ⟨-, hsame⟩ | ⟨-, hr⟩⟩ := selectAgent_cases p mem t d
    · have hs := hsame .addCacheSend
      exact h.of_eq hs.ctable hs.ctLen hs.freed
    · rw [hr]
      refine CacheInv.retrieveFrag ?_ _ _ _
      exact h.of_eq rfl rfl rfl
  | updateRef fileId fragId =>
    obtain rfl := Option.some.inj hs
    exact h.updateRef fileId fragId
  | deleteCache fileId fragId =>
    obtain rfl := Option.some.inj hs
    exact h.deleteCache fileId fragId

end CacheInv

/-! ## Building the table -/

/-- The service centers that the calls of `create_cache` have created, the last one first. -/
def createdCenters (calls : List CreateCall) : List (U32 × U32) :=
  ((calls.filter fun c => c.ok && c.flag == 1).map fun c => (c.fileId, c.fragId)).reverse

theorem centers_createCaches (calls : List CreateCall) (d : Daemon) :
    centers (createCaches calls d).ctable = createdCenters calls ++ centers d.ctable := by
  induction calls generalizing d with
  | nil => rfl
  | cons c calls ih =>
    rw [createCaches, List.foldl_cons, ← createCaches, ih]
    obtain ⟨ok, fileId, fragId, flag⟩ := c
    cases ok with
    | false => simp [createCache, createdCenters]
    | true =>
      simp only [createCache, insertCache, if_true, centers_cons, createdCenters]
      by_cases hf : flag = 1
      · simp [hf, CacheTable.key]
      · rw [if_neg hf, List.filter_cons_of_neg (by simpa using hf)]

theorem CacheWf.createCaches {calls : List CreateCall} {d : Daemon} (h : CacheWf d)
    (hflags : ∀ c ∈ calls, c.flag = 0 ∨ c.flag = 1) : CacheWf (createCaches calls d) := by
  induction calls generalizing d with
  | nil => exact h
  | cons c calls ih =>
    obtain ⟨hc, hflags⟩ := List.forall_mem_cons.1 hflags
    exact ih (h.createCache c.ok c.fileId c.fragId hc) hflags

/-- From any table that `create_cache` builds, and whatever the limits are: `ct_len` stays the
length of the list, neither the table nor the fragments of one file outgrow the larger of their
first number and their limit, the service centers stay and only other entries are freed. -/
theorem cache_limits (p : Params) {calls : List CreateCall} {d₀ d : Daemon} {ops : List CacheOp}
    (ht : d₀.ctable = []) (hl : d₀.ctLen = 0) (hfreed : d₀.freed = [])
    (hflags : ∀ c ∈ calls, c.flag = 0 ∨ c.flag = 1)
    (he : exec (cacheStep p) ops (createCaches calls d₀) = some d) :
    d.ctLen = d.ctable.length ∧
    d.ctLen ≤ max ((createCaches calls d₀).ctable.length : ℤ) p.bufSize.toInt ∧
    (∀ f, (fileCount d.ctable f : ℤ) ≤
      max (fileCount (createCaches calls d₀).ctable f : ℤ) (p.kval.toInt - 1)) ∧
    centers d.ctable = createdCenters calls ∧
    (∀ c ∈ d.freed, c.isServiceCenter = 0) := by
  have hwf : CacheWf d₀ := ⟨by rw [hl, ht]; rfl, by simp [ht], by simp [hfreed]⟩
  have hinit : CacheInv p (createCaches calls d₀) (createCaches calls d₀) :=
    ⟨hwf.createCaches hflags, le_max_left _ _, fun _ => le_max_left _ _, rfl⟩
  have h : CacheInv p (createCaches calls d₀) d :=
    exec_of_step (fun _ _ _ hd hs => CacheInv.cacheStep hd hs) hinit he
  refine ⟨h.len, h.len ▸ h.capacity, h.perFile, ?_, h.freed⟩
  rw [h.centers_eq, centers_createCaches, ht]
  exact List.append_nil _

/-- A full table with one service center: the exchange replaces the other entry. -/
theorem cache_limits_of_full :
    ∃ d, exec (cacheStep testNode) [.selectAgent .plenty (createTask .addCacheSend ⟨0, 0⟩)]
        (createCaches [⟨true, 1, 1, 1⟩, ⟨true, 2, 1, 0⟩, ⟨true, 3, 1, 0⟩] {}) = some d ∧
      centers d.ctable = [(1, 1)] ∧ ∀ c ∈ d.freed, c.isServiceCenter = 0 := by
  refine ⟨_, rfl, ?_⟩
  have h := @cache_limits testNode [⟨true, 1, 1, 1⟩, ⟨true, 2, 1, 0⟩, ⟨true, 3, 1, 0⟩] {} _
    [.selectAgent .plenty (createTask .addCacheSend ⟨0, 0⟩)] rfl rfl rfl (by decide) rfl
  exact ⟨h.2.2.2.1, h.2.2.2.2⟩

end MobileCloudCaching.Caching
