import MobileCloudCaching.Caching.Types
import MobileCloudCaching.Library.FirstMatch

/-!
# The cache table (`cacheTable.c`)

The table is the list from `ctable`; a pointer into it is the position of the entry.  `ct_len` is
kept by hand next to the list, and `freed` records the entries that `remove_cache` gives back.
-/

namespace MobileCloudCaching.Caching

open FirstMatch

namespace CacheTable

/-- The pair that identifies a fragment. -/
def key (c : CacheTable) : U32 × U32 := (c.fileId, c.fragId)

/-- The test of `find_cache_by_fr`. -/
def matchesFr (fileId fragId : U32) (c : CacheTable) : Bool :=
  c.fileId == fileId && c.fragId == fragId

theorem matchesFr_iff {fileId fragId : U32} {c : CacheTable} :
    c.matchesFr fileId fragId = true ↔ c.key = (fileId, fragId) := by
  simp [matchesFr, key]

/-- One more reference. -/
def ref (c : CacheTable) : CacheTable := { c with refs := c.refs + 1 }

@[simp] theorem key_ref (c : CacheTable) : c.ref.key = c.key := rfl

end CacheTable

/-- `find_cache_by_fr` -/
def findCacheByFr (t : List CacheTable) (fileId fragId : U32) : Option CacheTable :=
  t.find? (CacheTable.matchesFr fileId fragId)

/-- The fragments that the loop over `find_cache_by_fl` meets while `count < KVAL`, as
`gen_flrep`, `process_flrep` and `retrieve_frag` run it. -/
def heldFrags (kval : ℤ) (fileId : U32) : List CacheTable → ℕ → List U32
  | [], _ => []
  | c :: t, count =>
    if c.fileId = fileId then
      if (count : ℤ) < kval then c.fragId :: heldFrags kval fileId t (count + 1) else []
    else heldFrags kval fileId t count

/-- `update_ref` on the list. -/
def updateRefs (t : List CacheTable) (fileId fragId : U32) : List CacheTable :=
  modifyFirst (CacheTable.matchesFr fileId fragId) CacheTable.ref t

/-- Counting references leaves the fragments. -/
@[simp] theorem map_key_updateRefs (t : List CacheTable) (fileId fragId : U32) :
    (updateRefs t fileId fragId).map CacheTable.key = t.map CacheTable.key :=
  map_modifyFirst CacheTable.key_ref

/-- `update_ref` -/
def updateRef (fileId fragId : U32) (d : Daemon) : Daemon :=
  { d with ctable := updateRefs d.ctable fileId fragId }

/-- `remove_cache` of the entry at position `i`. -/
def removeCache (i : ℕ) (d : Daemon) : Daemon :=
  { d with ctable := d.ctable.eraseIdx i, ctLen := d.ctLen - 1,
           freed := d.freed ++ (d.ctable[i]?).toList }

/-- `delete_cache` -/
def deleteCache (fileId fragId : U32) (d : Daemon) : Daemon :=
  match d.ctable.findIdx? (CacheTable.matchesFr fileId fragId) with
  | none => d
  | some i =>
    match d.ctable[i]? with
    | none => d
    | some c => if c.isServiceCenter = 0 then removeCache i d else d

/-- `insert_cache` -/
def insertCache (c : CacheTable) (d : Daemon) : Daemon :=
  { d with ctable := c :: d.ctable, ctLen := d.ctLen + 1 }

/-- `create_cache`; `ok` is the outcome of its allocation. -/
def createCache (ok : Bool) (fileId fragId flag : U32) (d : Daemon) : Daemon :=
  if ok then
    insertCache { fileId := fileId, fragId := fragId, refs := 0, isServiceCenter := flag } d
  else d

/-- A call of `create_cache`: the outcome of its allocation, and its arguments. -/
structure CreateCall where
  ok : Bool
  fileId : U32
  fragId : U32
  flag : U32

/-- The calls of `create_cache` that build a table, one after the other. -/
def createCaches (calls : List CreateCall) (d : Daemon) : Daemon :=
  calls.foldl (fun d c => createCache c.ok c.fileId c.fragId c.flag d) d

/-- `init_cache_table`: each fragment that the directory names is kept as a service center. -/
def initCacheTable (mem : Mem) (names : List (U32 × U32)) (d : Daemon) : Daemon :=
  createCaches (names.mapIdx fun i n => ⟨mem.ok .cache i, n.1, n.2, 1⟩)
    { d with ctable := [], ctLen := 0 }

/-! ## Counting the fragments of a file -/

/-- The number of entries of a file. -/
def fileCount (t : List CacheTable) (fileId : U32) : ℕ := t.countP fun c => c.fileId == fileId

/-- The fragment ids held of a file, in list order. -/
def fragsOf (t : List CacheTable) (fileId : U32) : List U32 :=
  (t.filter fun c => c.fileId == fileId).map CacheTable.fragId

theorem length_fragsOf (t : List CacheTable) (fileId : U32) :
    (fragsOf t fileId).length = fileCount t fileId := by
  rw [fragsOf, List.length_map, fileCount, List.countP_eq_length_filter]

/-- The loop stops at `KVAL` entries. -/
theorem heldFrags_eq_take (kval : ℤ) (fileId : U32) (t : List CacheTable) (count : ℕ) :
    heldFrags kval fileId t count = (fragsOf t fileId).take (kval - count).toNat := by
  induction t generalizing count with
  | nil => simp [heldFrags, fragsOf]
  | cons c t ih =>
    by_cases hc : c.fileId = fileId
    · by_cases hk : (count : ℤ) < kval
      · have hn : (kval - count).toNat = (kval - (count + 1 : ℕ)).toNat + 1 := by omega
        rw [heldFrags, if_pos hc, if_pos hk, ih, hn]
        simp [fragsOf, hc]
      · have hn : (kval - count).toNat = 0 := by omega
        rw [heldFrags, if_pos hc, if_neg hk, hn, List.take_zero]
    · rw [heldFrags, if_neg hc, ih]
      simp [fragsOf, hc]

theorem length_heldFrags (kval : ℤ) (fileId : U32) (t : List CacheTable) :
    (heldFrags kval fileId t 0).length = min kval.toNat (fileCount t fileId) := by
  rw [heldFrags_eq_take, List.length_take, length_fragsOf]
  simp

/-- Whether the loop meets `KVAL - 1` entries is a question about all entries. -/
theorem length_heldFrags_ge_iff (kval : ℤ) (fileId : U32) (t : List CacheTable) :
    ((heldFrags kval fileId t 0).length : ℤ) ≥ kval - 1 ↔ (fileCount t fileId : ℤ) ≥ kval - 1 := by
  rw [length_heldFrags]
  omega

theorem mem_fragsOf_iff {t : List CacheTable} {fileId x : U32} :
    x ∈ fragsOf t fileId ↔ (fileId, x) ∈ t.map CacheTable.key := by
  simp only [fragsOf, CacheTable.key, List.mem_map, List.mem_filter, beq_iff_eq, Prod.mk.injEq]
  constructor
  · rintro ⟨c, ⟨hc, hf⟩, rfl⟩
    exact ⟨c, hc, hf, rfl⟩
  · rintro ⟨c, hc, hf, rfl⟩
    exact ⟨c, ⟨hc, hf⟩, rfl⟩

theorem nodup_fragsOf {t : List CacheTable} (h : (t.map CacheTable.key).Nodup) (fileId : U32) :
    (fragsOf t fileId).Nodup := by
  induction t with
  | nil => exact List.nodup_nil
  | cons c t ih =>
    rw [List.map_cons, List.nodup_cons] at h
    by_cases hc : c.fileId = fileId
    · have hcons : fragsOf (c :: t) fileId = c.fragId :: fragsOf t fileId := by simp [fragsOf, hc]
      rw [hcons, List.nodup_cons, mem_fragsOf_iff]
      exact ⟨hc ▸ h.1, ih h.2⟩
    · have hcons : fragsOf (c :: t) fileId = fragsOf t fileId := by simp [fragsOf, hc]
      rw [hcons]
      exact ih h.2

end MobileCloudCaching.Caching
