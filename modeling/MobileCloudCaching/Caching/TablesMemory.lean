import MobileCloudCaching.Caching.Bounds
import MobileCloudCaching.Caching.CacheMemory
import MobileCloudCaching.Caching.ExchangeMemory
import MobileCloudCaching.Caching.ReqList

/-!
# The four tables in memory (`cacheTable.c`, `cFileRep.c`, `cExchange.c`, `cReqList.c`)

`ctable`, `rinfo`, `extable` and `crlist` are kept with four copies of the same code: a new entry
goes in front of the others, and an entry is taken out by writes to its neighbours and to the head.
The loops that throw away marked entries take out the entry they stand on.  `create_rinfo` copies as
many fragment ids as the reply says that it has.
-/

namespace MobileCloudCaching.Caching.InMemory

open Linked Doubly Transition Octets

/-- Where an entry of `rinfo` has `prev` and `next`. -/
abbrev replyCell : Layout (Cell FileRepInfo) FileRepInfo := Cell.layout FileRepInfo

/-- Where an entry of `crlist` has `prev` and `next`. -/
abbrev requestCell : Layout (Cell ReqList) ReqList := Cell.layout ReqList

structure Replies where
  mem : Memory (Cell FileRepInfo) := {}
  rinfo : Option ℕ := none
  deriving DecidableEq

structure Requests where
  mem : Memory (Cell ReqList) := {}
  crlist : Option ℕ := none
  deriving DecidableEq

/-! ## The code -/

section Code

def findCacheByFr (fileId fragId : U32) (s : Cache) : Option (Option ℕ) :=
  cell.skip (fun c => c.fileId != fileId || c.fragId != fragId) s.ctable s.mem

def cleanupCacheTable (s : Cache) : Option Cache :=
  cell.sweep Cache.mem removeCache (fun c => c.isServiceCenter == 0) s.mem.cells.length s.ctable s

def findRinfo (head : Option ℕ) (fileId : U32) (s : Replies) : Option (Option ℕ) :=
  replyCell.skip (fun r => r.expired == 1 || r.fileId != fileId) head s.mem

def removeRinfo (deadRinfo : ℕ) (s : Replies) : Option Replies := do
  let (mem, rinfo) ← replyCell.remove deadRinfo s.mem s.rinfo
  return { s with mem := mem, rinfo := rinfo }

def flushRinfo (s : Replies) : Option Replies :=
  replyCell.sweep Replies.mem removeRinfo (fun r => r.expired == 1) s.mem.cells.length s.rinfo s

def cleanupRinfo (s : Replies) : Option Replies :=
  (freeAll replyCell.val replyCell.next s.mem.cells.length s.rinfo s.mem).map fun r =>
    { s with mem := r.2, rinfo := none }

def insertRinfo (newRinfo : ℕ) (s : Replies) : Option Replies := do
  let (mem, rinfo) ← replyCell.push newRinfo s.mem s.rinfo
  return { s with mem := mem, rinfo := rinfo }

/-- The access stays inside the structure, in the memory of a 32-bit host. -/
def inStructure : Access → Bool
  | .readFrag _ => true
  | .writeMap i | .readMap i => i < 12

/-- `create_rinfo`, for which `kmalloc` has found an address with the words `map` in it, or none;
`frags` are the words behind the message.  It fails when a word behind the structure is written. -/
def createRinfo (o : ByteOrder) (kmalloc : Option ℕ) (map : Vector U32 8) (m : FileRep)
    (frags : ℕ → U32) (s : Replies) :
    Option Replies :=
  match kmalloc with
  | none => some s
  | some a =>
    let r := fillRinfo o map m frags
    if r.trace.all inStructure then
      insertRinfo a { s with mem := s.mem.alloc a { val := r.value, prev := none, next := none } }
    else none

/-- `expired = 1`, through a pointer to an entry of `rinfo`. -/
def expireRinfo (a : ℕ) (s : Replies) : Option Replies :=
  (s.mem.modify (some a) fun n => { n with val := n.val.expire }).map fun mem =>
    { s with mem := mem }

def removeExtable (deadExtable : ℕ) (s : Exchange) : Option Exchange := do
  let (mem, extable) ← exchCell.remove deadExtable s.mem s.extable
  return { s with mem := mem, extable := extable }

def flushExtable (s : Exchange) : Option Exchange :=
  exchCell.sweep Exchange.mem removeExtable (fun e => e.expired == 1) s.mem.cells.length s.extable s

def cleanupExtable (s : Exchange) : Option Exchange :=
  (freeAll exchCell.val exchCell.next s.mem.cells.length s.extable s.mem).map fun r =>
    { s with mem := r.2, extable := none }

/-- `expired = 1`, through a pointer to an entry of `extable`. -/
def expireExtable (a : ℕ) (s : Exchange) : Option Exchange :=
  (s.mem.modify (some a) fun n => { n with val := { n.val with expired := 1 } }).map fun mem =>
    { s with mem := mem }

def findCreq (fileId fragId : U32) (s : Requests) : Option (Option ℕ) :=
  requestCell.skip (fun c => c.fileId != fileId || c.fragId != fragId) s.crlist s.mem

def removeCreq (deadCreq : ℕ) (s : Requests) : Option Requests := do
  let (mem, crlist) ← requestCell.remove deadCreq s.mem s.crlist
  return { s with mem := mem, crlist := crlist }

def cleanupReqList (s : Requests) : Option Requests :=
  (freeAll requestCell.val requestCell.next s.mem.cells.length s.crlist s.mem).map fun r =>
    { s with mem := r.2, crlist := none }

def insertCreq (newCreq : ℕ) (s : Requests) : Option Requests := do
  let (mem, crlist) ← requestCell.push newCreq s.mem s.crlist
  return { s with mem := mem, crlist := crlist }

/-- `create_creq`, for which `kmalloc` has found an address or none. -/
def createCreq (kmalloc : Option ℕ) (fileId fragId : U32) (s : Requests) : Option Requests :=
  match kmalloc with
  | none => some s
  | some a =>
    let entry : ReqList := { fileId := fileId, fragId := fragId, count := 0 }
    insertCreq a { s with mem := s.mem.alloc a { val := entry, prev := none, next := none } }

end Code

/-! ## What the code does to a list -/

section Lists

variable {o : ByteOrder} {map : Vector U32 8} {m : FileRep} {frags : ℕ → U32} {a : ℕ}

/-- The loop of `create_rinfo` stays inside the structure. -/
def Fills (o : ByteOrder) (m : FileRep) : Prop := rounds o m.fragCount ≤ 12

theorem all_inStructure_iff : (fillRinfo o map m frags).trace.all inStructure = true ↔
    Fills o m := by
  rw [List.all_eq_true, Fills]
  constructor
  · intro hall
    by_contra hmany
    have hbad := hall (.writeMap 12) (mem_trace_fillRinfo.2 ⟨12, by omega, .inr rfl⟩)
    exact absurd hbad (by decide)
  · intro hcount x hx
    obtain ⟨j, hj, rfl | rfl⟩ := mem_trace_fillRinfo.1 hx
    · rfl
    · exact decide_eq_true (by omega)

theorem createCache_holds {s : Cache} {l : List (ℕ × CacheTable)} {kmalloc : Kmalloc}
    (h : Holds s l ∧ s.ctLen = l.length) (ha : kmalloc.find s.mem = some a)
    (fileId fragId flag : U32) :
    ∃ t, createCache kmalloc fileId fragId flag s = some t ∧
    Holds t ((a, ⟨fileId, fragId, 0, flag⟩) :: l) ∧
      t.ctLen = ((a, (⟨fileId, fragId, 0, flag⟩ : CacheTable)) :: l).length := by
  obtain ⟨w, hpush, hholds⟩ := Cell.push h.1 (kmalloc.free _ _ ha) ⟨fileId, fragId, 0, flag⟩
  refine ⟨{ s with mem := w, ctable := some a, ctLen := s.ctLen + 1 }, ?_, hholds, ?_⟩
  · unfold createCache insertCache
    rw [ha]
    dsimp only
    rw [hpush]
    rfl
  · show s.ctLen + 1 = _
    rw [h.2, List.length_cons]
    rfl

theorem removeCache_holds {s : Cache} {l₁ l₂ : List (ℕ × CacheTable)} {x : CacheTable}
    (h : Holds s (l₁ ++ (a, x) :: l₂) ∧ s.ctLen = (l₁ ++ (a, x) :: l₂).length) :
    ∃ t, removeCache a s = some t ∧ Holds t (l₁ ++ l₂) ∧ t.ctLen = (l₁ ++ l₂).length := by
  obtain ⟨hholds, hlen⟩ := h
  obtain ⟨w, p, hrem, hw⟩ := hholds.remove
  refine ⟨{ s with mem := w, ctable := p, ctLen := s.ctLen - 1 }, by
    rw [removeCache, hrem]; rfl, hw, ?_⟩
  show s.ctLen - 1 = _
  rw [hlen, List.length_append, List.length_append, List.length_cons]
  omega

theorem cleanupCacheTable_holds {s : Cache} {l : List (ℕ × CacheTable)}
    (h : Holds s l ∧ s.ctLen = l.length) :
    ∃ t, cleanupCacheTable s = some t ∧ Holds t (l.filter fun c => c.2.isServiceCenter != 0) ∧
      t.ctLen = (l.filter fun c => c.2.isServiceCenter != 0).length :=
  Layout.sweep_spec (fun s l => Holds s l ∧ s.ctLen = l.length) (fun _ _ h => h.1)
    (fun _ _ _ _ _ h => removeCache_holds h) (fun c => c.isServiceCenter == 0) h

theorem removeRinfo_holds {s : Replies} {l₁ l₂ : List (ℕ × FileRepInfo)} {x : FileRepInfo}
    (h : replyCell.Holds s.mem s.rinfo (l₁ ++ (a, x) :: l₂)) :
    ∃ t, removeRinfo a s = some t ∧ replyCell.Holds t.mem t.rinfo (l₁ ++ l₂) := by
  obtain ⟨w, p, hrem, hw⟩ := h.remove
  exact ⟨{ s with mem := w, rinfo := p }, by rw [removeRinfo, hrem]; rfl, hw⟩

theorem flushRinfo_holds {s : Replies} {l : List (ℕ × FileRepInfo)}
    (h : replyCell.Holds s.mem s.rinfo l) :
    ∃ t, flushRinfo s = some t ∧ replyCell.Holds t.mem t.rinfo (l.filter fun c =>
      c.2.expired != 1) :=
  Layout.sweep_spec (fun (s : Replies) l => replyCell.Holds s.mem s.rinfo l) (fun _ _ h => h)
    (fun _ _ _ _ _ h => removeRinfo_holds h) (fun r => r.expired == 1) h

theorem createRinfo_holds {s : Replies} {l : List (ℕ × FileRepInfo)}
    (h : replyCell.Holds s.mem s.rinfo l) (ha : s.mem.get a = none) (hm : Fills o m)
    (map : Vector U32 8) (frags : ℕ → U32) :
    ∃ t, createRinfo o (some a) map m frags s = some t ∧
      replyCell.Holds t.mem t.rinfo ((a, (fillRinfo o map m frags).value) :: l) := by
  obtain ⟨w, hpush, hholds⟩ := Cell.push h ha (fillRinfo o map m frags).value
  refine ⟨{ s with mem := w, rinfo := some a }, ?_, hholds⟩
  unfold createRinfo insertRinfo
  dsimp only
  rw [if_pos (all_inStructure_iff.2 hm), hpush]
  rfl

theorem cleanupRinfo_holds {s : Replies} {l : List (ℕ × FileRepInfo)}
    (h : replyCell.Holds s.mem s.rinfo l) :
    ∃ t, cleanupRinfo s = some t ∧ replyCell.Holds t.mem t.rinfo [] := by
  obtain ⟨w, hfree⟩ := h.freeAll
  exact ⟨{ s with mem := w, rinfo := none }, by rw [cleanupRinfo, hfree]; rfl, .nil _⟩

theorem expireRinfo_holds {s : Replies} {l₁ l₂ : List (ℕ × FileRepInfo)} {x : FileRepInfo}
    (h : replyCell.Holds s.mem s.rinfo (l₁ ++ (a, x) :: l₂)) :
    ∃ t, expireRinfo a s = some t ∧ replyCell.Holds t.mem t.rinfo (l₁ ++ (a, x.expire) :: l₂) := by
  obtain ⟨w, hset, hholds⟩ := Cell.write h FileRepInfo.expire
  exact ⟨{ s with mem := w }, by rw [expireRinfo, hset]; rfl, hholds⟩

theorem removeExtable_holds {s : Exchange} {l₁ l₂ : List (ℕ × ExchTable)} {x : ExchTable}
    (h : exchCell.Holds s.mem s.extable (l₁ ++ (a, x) :: l₂)) :
    ∃ t, removeExtable a s = some t ∧ exchCell.Holds t.mem t.extable (l₁ ++ l₂) := by
  obtain ⟨w, p, hrem, hw⟩ := h.remove
  exact ⟨{ s with mem := w, extable := p }, by rw [removeExtable, hrem]; rfl, hw⟩

theorem flushExtable_holds {s : Exchange} {l : List (ℕ × ExchTable)}
    (h : exchCell.Holds s.mem s.extable l) :
    ∃ t, flushExtable s = some t ∧
    exchCell.Holds t.mem t.extable (l.filter fun c => c.2.expired != 1) :=
  Layout.sweep_spec (fun (s : Exchange) l => exchCell.Holds s.mem s.extable l) (fun _ _ h => h)
    (fun _ _ _ _ _ h => removeExtable_holds h) (fun e => e.expired == 1) h

theorem cleanupExtable_holds {s : Exchange} {l : List (ℕ × ExchTable)}
    (h : exchCell.Holds s.mem s.extable l) :
    ∃ t, cleanupExtable s = some t ∧ exchCell.Holds t.mem t.extable [] := by
  obtain ⟨w, hfree⟩ := h.freeAll
  exact ⟨{ s with mem := w, extable := none }, by rw [cleanupExtable, hfree]; rfl, .nil _⟩

theorem expireExtable_holds {s : Exchange} {l₁ l₂ : List (ℕ × ExchTable)} {x : ExchTable}
    (h : exchCell.Holds s.mem s.extable (l₁ ++ (a, x) :: l₂)) :
    ∃ t, expireExtable a s = some t ∧
    exchCell.Holds t.mem t.extable (l₁ ++ (a, { x with expired := 1 }) :: l₂) := by
  obtain ⟨w, hset, hholds⟩ := Cell.write h fun x => { x with expired := 1 }
  exact ⟨{ s with mem := w }, by rw [expireExtable, hset]; rfl, hholds⟩

theorem createCreq_holds {s : Requests} {l : List (ℕ × ReqList)}
    (h : requestCell.Holds s.mem s.crlist l) (ha : s.mem.get a = none) (fileId fragId : U32) :
    ∃ t, createCreq (some a) fileId fragId s = some t ∧
      requestCell.Holds t.mem t.crlist ((a, { fileId := fileId, fragId := fragId, count := 0 }) ::
      l) := by
  obtain ⟨w, hpush, hholds⟩ := Cell.push h ha { fileId := fileId, fragId := fragId, count := 0 }
  refine ⟨{ s with mem := w, crlist := some a }, ?_, hholds⟩
  unfold createCreq insertCreq
  dsimp only
  rw [hpush]
  rfl

theorem removeCreq_holds {s : Requests} {l₁ l₂ : List (ℕ × ReqList)} {x : ReqList}
    (h : requestCell.Holds s.mem s.crlist (l₁ ++ (a, x) :: l₂)) :
    ∃ t, removeCreq a s = some t ∧ requestCell.Holds t.mem t.crlist (l₁ ++ l₂) := by
  obtain ⟨w, p, hrem, hw⟩ := h.remove
  exact ⟨{ s with mem := w, crlist := p }, by rw [removeCreq, hrem]; rfl, hw⟩

theorem cleanupReqList_holds {s : Requests} {l : List (ℕ × ReqList)}
    (h : requestCell.Holds s.mem s.crlist l) :
    ∃ t, cleanupReqList s = some t ∧ requestCell.Holds t.mem t.crlist [] := by
  obtain ⟨w, hfree⟩ := h.freeAll
  exact ⟨{ s with mem := w, crlist := none }, by rw [cleanupReqList, hfree]; rfl, .nil _⟩

end Lists

/-! ## Runs -/

def Cache.entries (s : Cache) : List (ℕ × CacheTable) := cell.entries s.mem s.ctable

def Replies.entries (s : Replies) : List (ℕ × FileRepInfo) := replyCell.entries s.mem s.rinfo

def Exchange.entries (s : Exchange) : List (ℕ × ExchTable) := exchCell.entries s.mem s.extable

def Requests.entries (s : Requests) : List (ℕ × ReqList) := requestCell.entries s.mem s.crlist

structure Tables where
  cache : Cache := {}
  rinfo : Replies := {}
  extable : Exchange := {}
  crlist : Requests := {}

namespace Tables

/-- The lists from the four heads end, and their neighbours lead to each
other; `ct_len` counts the first one. -/
structure WellFormed (s : Tables) : Prop where
  cache : cell.WellFormed s.cache.mem s.cache.ctable
  ctLen : s.cache.ctLen = s.cache.entries.length
  rinfo : replyCell.WellFormed s.rinfo.mem s.rinfo.rinfo
  extable : exchCell.WellFormed s.extable.mem s.extable.extable
  crlist : requestCell.WellFormed s.crlist.mem s.crlist.crlist

/-- From any entry on, or from the null pointer, a search comes to the first entry that it is
for, and to the null pointer if there is none. -/
structure Finds (s : Tables) : Prop where
  cacheByFl : ∀ l₁ l₂ fileId, s.cache.entries = l₁ ++ l₂ →
    findCacheByFl (firstOf l₂ none) fileId s.cache.mem =
    some ((l₂.find? fun c => c.2.fileId == fileId).map Prod.fst)
  cacheByFr : ∀ fileId fragId, findCacheByFr fileId fragId s.cache =
    some ((s.cache.entries.find? fun c => c.2.matchesFr fileId fragId).map Prod.fst)
  rinfo : ∀ l₁ l₂ fileId, s.rinfo.entries = l₁ ++ l₂ → findRinfo (firstOf l₂ none) fileId s.rinfo =
    some ((l₂.find? fun c => c.2.live fileId).map Prod.fst)
  extable : ∀ l₁ l₂ fileId fragId, s.extable.entries = l₁ ++ l₂ →
    findExtable (firstOf l₂ none) fileId fragId s.extable.mem =
      some ((l₂.find? fun c => c.2.live fileId fragId).map Prod.fst)
  crlist : ∀ fileId fragId, findCreq fileId fragId s.crlist =
    some ((s.crlist.entries.find? fun c => c.2.isFor fileId fragId).map Prod.fst)

theorem WellFormed.finds {s : Tables} (h : WellFormed s) : Finds s where
  cacheByFl l₁ l₂ fileId hl := by
    have hholds := h.cache.holds
    rw [show cell.entries s.cache.mem s.cache.ctable = l₁ ++ l₂ from hl] at hholds
    exact hholds.skip fun _ => rfl
  cacheByFr fileId fragId := by
    have hholds : cell.Holds s.cache.mem s.cache.ctable ([] ++ s.cache.entries) := h.cache.holds
    rw [findCacheByFr, hholds.head_eq]
    exact hholds.skip fun x => by simp [CacheTable.matchesFr, bne]
  rinfo l₁ l₂ fileId hl := by
    have hholds := h.rinfo.holds
    rw [show replyCell.entries s.rinfo.mem s.rinfo.rinfo = l₁ ++ l₂ from hl] at hholds
    exact hholds.skip fun x => by simp [FileRepInfo.live, bne]
  extable l₁ l₂ fileId fragId hl := by
    have hholds := h.extable.holds
    rw [show exchCell.entries s.extable.mem s.extable.extable = l₁ ++ l₂ from hl] at hholds
    exact hholds.skip fun _ => rfl
  crlist fileId fragId := by
    have hholds : requestCell.Holds s.crlist.mem s.crlist.crlist ([] ++ s.crlist.entries) :=
      h.crlist.holds
    rw [findCreq, hholds.head_eq]
    exact hholds.skip fun x => by simp [ReqList.isFor, bne]

/-- A call; `kmalloc` is what it finds.  The callers mark entries
of `rinfo` and `extable` as expired. -/
inductive Action
  | createCache (kmalloc : Kmalloc) (fileId fragId flag : U32)
  | removeCache (deadCache : ℕ)
  | cleanupCacheTable
  | createRinfo (kmalloc : Option ℕ) (map : Vector U32 8) (m : FileRep) (frags : ℕ → U32)
  | removeRinfo (deadRinfo : ℕ)
  | expireRinfo (a : ℕ)
  | flushRinfo
  | cleanupRinfo
  | createExtable (kmalloc : Option ℕ) (m : ExchRep)
  | removeExtable (deadExtable : ℕ)
  | expireExtable (a : ℕ)
  | flushExtable
  | cleanupExtable
  | createCreq (kmalloc : Option ℕ) (fileId fragId : U32)
  | removeCreq (deadCreq : ℕ)
  | cleanupReqList

def onCache (op : Cache → Option Cache) (s : Tables) : Option Tables := (op s.cache).map fun t =>
  { s with cache := t }

def onRinfo (op : Replies → Option Replies) (s : Tables) : Option Tables :=
  (op s.rinfo).map fun t => { s with rinfo := t }

def onExtable (op : Exchange → Option Exchange) (s : Tables) : Option Tables :=
  (op s.extable).map fun t => { s with extable := t }

def onCrlist (op : Requests → Option Requests) (s : Tables) : Option Tables :=
  (op s.crlist).map fun t => { s with crlist := t }

def step (o : ByteOrder) : Action → Tables → Option Tables
  | .createCache kmalloc fileId fragId flag =>
      onCache (InMemory.createCache kmalloc fileId fragId flag)
  | .removeCache deadCache => onCache (InMemory.removeCache deadCache)
  | .cleanupCacheTable => onCache InMemory.cleanupCacheTable
  | .createRinfo kmalloc map m frags => onRinfo (InMemory.createRinfo o kmalloc map m frags)
  | .removeRinfo deadRinfo => onRinfo (InMemory.removeRinfo deadRinfo)
  | .expireRinfo a => onRinfo (InMemory.expireRinfo a)
  | .flushRinfo => onRinfo InMemory.flushRinfo
  | .cleanupRinfo => onRinfo InMemory.cleanupRinfo
  | .createExtable kmalloc m => onExtable (InMemory.createExtable kmalloc m)
  | .removeExtable deadExtable => onExtable (InMemory.removeExtable deadExtable)
  | .expireExtable a => onExtable (InMemory.expireExtable a)
  | .flushExtable => onExtable InMemory.flushExtable
  | .cleanupExtable => onExtable InMemory.cleanupExtable
  | .createCreq kmalloc fileId fragId => onCrlist (InMemory.createCreq kmalloc fileId fragId)
  | .removeCreq deadCreq => onCrlist (InMemory.removeCreq deadCreq)
  | .cleanupReqList => onCrlist InMemory.cleanupReqList

/-- `kmalloc` finds memory that is free, and what is removed or marked is in the list. -/
def Possible : Action → Tables → Prop
  | .createRinfo (some a) _ _ _, s => s.rinfo.mem.get a = none
  | .createExtable (some a) _, s => s.extable.mem.get a = none
  | .createCreq (some a) _ _, s => s.crlist.mem.get a = none
  | .removeCache a, s => a ∈ s.cache.entries.map Prod.fst
  | .removeRinfo a, s | .expireRinfo a, s => a ∈ s.rinfo.entries.map Prod.fst
  | .removeExtable a, s | .expireExtable a, s => a ∈ s.extable.entries.map Prod.fst
  | .removeCreq a, s => a ∈ s.crlist.entries.map Prod.fst
  | _, _ => True

instance : ∀ i s, Decidable (Possible i s)
  | .createRinfo (some a) _ _ _, s => inferInstanceAs (Decidable (s.rinfo.mem.get a = none))
  | .createExtable (some a) _, s => inferInstanceAs (Decidable (s.extable.mem.get a = none))
  | .createCreq (some a) _ _, s => inferInstanceAs (Decidable (s.crlist.mem.get a = none))
  | .removeCache a, s => inferInstanceAs (Decidable (a ∈ s.cache.entries.map Prod.fst))
  | .removeRinfo a, s | .expireRinfo a, s =>
      inferInstanceAs (Decidable (a ∈ s.rinfo.entries.map Prod.fst))
  | .removeExtable a, s | .expireExtable a, s =>
      inferInstanceAs (Decidable (a ∈ s.extable.entries.map Prod.fst))
  | .removeCreq a, s => inferInstanceAs (Decidable (a ∈ s.crlist.entries.map Prod.fst))
  | .createCache _ _ _ _, _ | .createRinfo none _ _ _, _ | .createExtable none _,
    _ | .createCreq none _ _, _ |
    .cleanupCacheTable, _ | .flushRinfo, _ | .cleanupRinfo, _ | .flushExtable,
    _ | .cleanupExtable, _ |
    .cleanupReqList, _ => isTrue trivial

variable {α : Type}

/-- The new entry, if there is one, is in front. -/
def InFront (kmalloc : Option ℕ) (x : α) (l l' : List (ℕ × α)) : Prop :=
  l' = (kmalloc.map fun a => (a, x)).toList ++ l

/-- The entry at `a` is taken out. -/
def Without (a : ℕ) (l l' : List (ℕ × α)) : Prop :=
  ∃ l₁ x l₂, l = l₁ ++ (a, x) :: l₂ ∧ l' = l₁ ++ l₂

/-- The entry at `a` is written. -/
def Written (a : ℕ) (f : α → α) (l l' : List (ℕ × α)) : Prop :=
  ∃ l₁ x l₂, l = l₁ ++ (a, x) :: l₂ ∧ l' = l₁ ++ (a, f x) :: l₂

/-- What each call does to the entries of its table; the other tables stay. -/
def Effect (o : ByteOrder) : Action → Tables → Tables → Prop
  | .createCache kmalloc fileId fragId flag, s, t => t = { s with cache := t.cache } ∧
      InFront (kmalloc.find s.cache.mem) ⟨fileId, fragId, 0, flag⟩ s.cache.entries t.cache.entries
  | .removeCache a, s, t =>
      t = { s with cache := t.cache } ∧ Without a s.cache.entries t.cache.entries
  | .cleanupCacheTable, s, t => t = { s with cache := t.cache } ∧
      t.cache.entries = s.cache.entries.filter fun c => c.2.isServiceCenter != 0
  | .createRinfo kmalloc map m frags, s, t => t = { s with rinfo := t.rinfo } ∧
      InFront kmalloc (fillRinfo o map m frags).value s.rinfo.entries t.rinfo.entries
  | .removeRinfo a, s, t =>
      t = { s with rinfo := t.rinfo } ∧ Without a s.rinfo.entries t.rinfo.entries
  | .expireRinfo a, s, t => t = { s with rinfo := t.rinfo } ∧
      Written a FileRepInfo.expire s.rinfo.entries t.rinfo.entries
  | .flushRinfo, s, t => t = { s with rinfo := t.rinfo } ∧
      t.rinfo.entries = s.rinfo.entries.filter fun c => c.2.expired != 1
  | .cleanupRinfo, s, t => t = { s with rinfo := t.rinfo } ∧ t.rinfo.entries = []
  | .createExtable kmalloc m, s, t => t = { s with extable := t.extable } ∧
      InFront kmalloc (entryOf m) s.extable.entries t.extable.entries
  | .removeExtable a, s, t =>
      t = { s with extable := t.extable } ∧ Without a s.extable.entries t.extable.entries
  | .expireExtable a, s, t => t = { s with extable := t.extable } ∧
      Written a (fun e => { e with expired := 1 }) s.extable.entries t.extable.entries
  | .flushExtable, s, t => t = { s with extable := t.extable } ∧
      t.extable.entries = s.extable.entries.filter fun c => c.2.expired != 1
  | .cleanupExtable, s, t => t = { s with extable := t.extable } ∧ t.extable.entries = []
  | .createCreq kmalloc fileId fragId, s, t => t = { s with crlist := t.crlist } ∧
      InFront kmalloc ⟨fileId, fragId, 0⟩ s.crlist.entries t.crlist.entries
  | .removeCreq a, s, t =>
      t = { s with crlist := t.crlist } ∧ Without a s.crlist.entries t.crlist.entries
  | .cleanupReqList, s, t => t = { s with crlist := t.crlist } ∧ t.crlist.entries = []

/-- An entry of `rinfo` is made of a reply whose fragment ids stay inside the structure. -/
def Fits (o : ByteOrder) : Action → Prop
  | .createRinfo (some _) _ m _ => Fills o m
  | _ => True

section Steps

variable {s : Tables} {o : ByteOrder} {a : ℕ}

theorem exists_split {l : List (ℕ × α)} (h : a ∈ l.map Prod.fst) : ∃ l₁ x l₂, l = l₁ ++
    (a, x) :: l₂ := by
  obtain ⟨c, hc, rfl⟩ := List.mem_map.1 h
  obtain ⟨l₁, l₂, hl⟩ := List.append_of_mem hc
  exact ⟨l₁, c.2, l₂, hl⟩

namespace WellFormed

theorem onCache {op : Cache → Option Cache} {c : Cache} {l : List (ℕ × CacheTable)}
    (h : WellFormed s) (hc : op s.cache = some c) (hl : Holds c l ∧ c.ctLen = l.length) :
    ∃ t, Tables.onCache op s = some t ∧ WellFormed t ∧ t = { s with cache := t.cache } ∧
    t.cache.entries = l := by
  refine ⟨{ s with cache := c }, by rw [Tables.onCache, hc]; rfl, ?_, rfl, hl.1.entries⟩
  refine { h with cache := hl.1.wellFormed, ctLen := ?_ }
  show c.ctLen = c.entries.length
  rw [hl.2, Cache.entries, hl.1.entries]

theorem onRinfo {op : Replies → Option Replies} {c : Replies} {l : List (ℕ × FileRepInfo)}
    (h : WellFormed s) (hc : op s.rinfo = some c) (hl : replyCell.Holds c.mem c.rinfo l) :
    ∃ t, Tables.onRinfo op s = some t ∧ WellFormed t ∧ t = { s with rinfo := t.rinfo } ∧
    t.rinfo.entries = l :=
  ⟨{ s with rinfo := c }, by rw [Tables.onRinfo, hc]; rfl, { h with rinfo := hl.wellFormed },
    rfl, hl.entries⟩

theorem onExtable {op : Exchange → Option Exchange} {c : Exchange} {l : List (ℕ × ExchTable)}
    (h : WellFormed s) (hc : op s.extable = some c) (hl : exchCell.Holds c.mem c.extable l) :
    ∃ t, Tables.onExtable op s = some t ∧ WellFormed t ∧ t = { s with extable := t.extable } ∧
    t.extable.entries = l :=
  ⟨{ s with extable := c }, by rw [Tables.onExtable, hc]; rfl, { h with extable := hl.wellFormed },
    rfl, hl.entries⟩

theorem onCrlist {op : Requests → Option Requests} {c : Requests} {l : List (ℕ × ReqList)}
    (h : WellFormed s) (hc : op s.crlist = some c) (hl : requestCell.Holds c.mem c.crlist l) :
    ∃ t, Tables.onCrlist op s = some t ∧ WellFormed t ∧ t = { s with crlist := t.crlist } ∧
    t.crlist.entries = l :=
  ⟨{ s with crlist := c }, by rw [Tables.onCrlist, hc]; rfl, { h with crlist := hl.wellFormed },
    rfl, hl.entries⟩

end WellFormed

theorem WellFormed.step {i : Action} (h : WellFormed s) (hp : Possible i s) (hi : Fits o i) :
    ∃ t, Tables.step o i s = some t ∧ WellFormed t ∧ Effect o i s t := by
  have hcache : Holds s.cache s.cache.entries ∧ s.cache.ctLen = s.cache.entries.length :=
    ⟨h.cache.holds, h.ctLen⟩
  have hrinfo : replyCell.Holds s.rinfo.mem s.rinfo.rinfo s.rinfo.entries := h.rinfo.holds
  have hextable : exchCell.Holds s.extable.mem s.extable.extable s.extable.entries :=
    h.extable.holds
  have hcrlist : requestCell.Holds s.crlist.mem s.crlist.crlist s.crlist.entries := h.crlist.holds
  cases i with
  | createCache kmalloc fileId fragId flag =>
    cases ha : kmalloc.find s.cache.mem with
    | none =>
      have hsame : InMemory.createCache kmalloc fileId fragId flag s.cache = some s.cache := by
        rw [InMemory.createCache, ha]
      obtain ⟨t, ht, hwf, hframe, hl⟩ := h.onCache hsame hcache
      exact ⟨t, ht, hwf, hframe, by rw [ha]; exact hl⟩
    | some a =>
      obtain ⟨c, hc, hholds⟩ := createCache_holds hcache ha fileId fragId flag
      obtain ⟨t, ht, hwf, hframe, hl⟩ := h.onCache hc hholds
      exact ⟨t, ht, hwf, hframe, by rw [ha]; exact hl⟩
  | removeCache a =>
    obtain ⟨l₁, x, l₂, hsplit⟩ := exists_split hp
    obtain ⟨c, hc, hholds⟩ := removeCache_holds (hsplit ▸ hcache)
    obtain ⟨t, ht, hwf, hframe, hl⟩ := h.onCache hc hholds
    exact ⟨t, ht, hwf, hframe, l₁, x, l₂, hsplit, hl⟩
  | cleanupCacheTable =>
    obtain ⟨c, hc, hholds⟩ := cleanupCacheTable_holds hcache
    exact h.onCache hc hholds
  | createRinfo kmalloc map m frags =>
    cases kmalloc with
    | none =>
      have hsame : InMemory.createRinfo o none map m frags s.rinfo = some s.rinfo := rfl
      exact h.onRinfo hsame hrinfo
    | some a =>
      obtain ⟨c, hc, hholds⟩ := createRinfo_holds hrinfo hp hi map frags
      exact h.onRinfo hc hholds
  | removeRinfo a =>
    obtain ⟨l₁, x, l₂, hsplit⟩ := exists_split hp
    obtain ⟨c, hc, hholds⟩ := removeRinfo_holds (hsplit ▸ hrinfo)
    obtain ⟨t, ht, hwf, hframe, hl⟩ := h.onRinfo hc hholds
    exact ⟨t, ht, hwf, hframe, l₁, x, l₂, hsplit, hl⟩
  | expireRinfo a =>
    obtain ⟨l₁, x, l₂, hsplit⟩ := exists_split hp
    obtain ⟨c, hc, hholds⟩ := expireRinfo_holds (hsplit ▸ hrinfo)
    obtain ⟨t, ht, hwf, hframe, hl⟩ := h.onRinfo hc hholds
    exact ⟨t, ht, hwf, hframe, l₁, x, l₂, hsplit, hl⟩
  | flushRinfo =>
    obtain ⟨c, hc, hholds⟩ := flushRinfo_holds hrinfo
    exact h.onRinfo hc hholds
  | cleanupRinfo =>
    obtain ⟨c, hc, hholds⟩ := cleanupRinfo_holds hrinfo
    exact h.onRinfo hc hholds
  | createExtable kmalloc m =>
    cases kmalloc with
    | none =>
      have hsame : InMemory.createExtable none m s.extable = some s.extable := rfl
      exact h.onExtable hsame hextable
    | some a =>
      obtain ⟨c, hc, hholds⟩ := createExtable_holds hextable hp m
      exact h.onExtable hc hholds
  | removeExtable a =>
    obtain ⟨l₁, x, l₂, hsplit⟩ := exists_split hp
    obtain ⟨c, hc, hholds⟩ := removeExtable_holds (hsplit ▸ hextable)
    obtain ⟨t, ht, hwf, hframe, hl⟩ := h.onExtable hc hholds
    exact ⟨t, ht, hwf, hframe, l₁, x, l₂, hsplit, hl⟩
  | expireExtable a =>
    obtain ⟨l₁, x, l₂, hsplit⟩ := exists_split hp
    obtain ⟨c, hc, hholds⟩ := expireExtable_holds (hsplit ▸ hextable)
    obtain ⟨t, ht, hwf, hframe, hl⟩ := h.onExtable hc hholds
    exact ⟨t, ht, hwf, hframe, l₁, x, l₂, hsplit, hl⟩
  | flushExtable =>
    obtain ⟨c, hc, hholds⟩ := flushExtable_holds hextable
    exact h.onExtable hc hholds
  | cleanupExtable =>
    obtain ⟨c, hc, hholds⟩ := cleanupExtable_holds hextable
    exact h.onExtable hc hholds
  | createCreq kmalloc fileId fragId =>
    cases kmalloc with
    | none =>
      have hsame : InMemory.createCreq none fileId fragId s.crlist = some s.crlist := rfl
      exact h.onCrlist hsame hcrlist
    | some a =>
      obtain ⟨c, hc, hholds⟩ := createCreq_holds hcrlist hp fileId fragId
      exact h.onCrlist hc hholds
  | removeCreq a =>
    obtain ⟨l₁, x, l₂, hsplit⟩ := exists_split hp
    obtain ⟨c, hc, hholds⟩ := removeCreq_holds (hsplit ▸ hcrlist)
    obtain ⟨t, ht, hwf, hframe, hl⟩ := h.onCrlist hc hholds
    exact ⟨t, ht, hwf, hframe, l₁, x, l₂, hsplit, hl⟩
  | cleanupReqList =>
    obtain ⟨c, hc, hholds⟩ := cleanupReqList_holds hcrlist
    exact h.onCrlist hc hholds

theorem WellFormed.keep {i : Action} {t : Tables} (h : WellFormed s)
    (hp : Possible i s) (hi : Fits o i) (ht : Tables.step o i s = some t) : WellFormed t ∧
    Effect o i s t := by
  obtain ⟨t', ht', hkept⟩ := h.step hp hi
  rwa [Option.some.inj (ht.symm.trans ht')]

/-- A call that returns has stayed inside the structure. -/
theorem fits_of_step {i : Action} {t : Tables} (ht : Tables.step o i s = some t) : Fits o i := by
  cases i with
  | createRinfo kmalloc map m frags =>
    cases kmalloc with
    | none => trivial
    | some a =>
      obtain ⟨c, hc, -⟩ := Option.map_eq_some_iff.1 ht
      unfold InMemory.createRinfo at hc
      dsimp only at hc
      by_cases hin : (fillRinfo o map m frags).trace.all inStructure = true
      · exact all_inStructure_iff.1 hin
      · rw [if_neg hin] at hc
        cases hc
  | _ => trivial

theorem wellFormed_start : WellFormed {} where
  cache := (Layout.Holds.nil {}).wellFormed
  ctLen := rfl
  rinfo := (Layout.Holds.nil {}).wellFormed
  extable := (Layout.Holds.nil {}).wellFormed
  crlist := (Layout.Holds.nil {}).wellFormed

/-- Each call of the run returns and has its effect, and in every state the tables are well
formed and the searches find what they are for. -/
structure Right (o : ByteOrder) (actions : List Action) : Prop where
  returns : ∃ t, exec (Tables.step o) actions {} = some t
  states : Along (Tables.step o) (fun s => WellFormed s ∧ Finds s) actions {}
  effects : AllSteps (Tables.step o) (fun i s => ∀ t ∈ Tables.step o i s, Effect o i s t) actions {}

theorem forall_fits_of_exec {actions : List Action} {t : Tables}
    (ht : exec (Tables.step o) actions s = some t) :
    ∀ i ∈ actions, Fits o i := by
  induction actions generalizing s with
  | nil => exact List.forall_mem_nil _
  | cons i actions ih =>
    obtain ⟨u, hu, hrest⟩ := exec_cons_eq_some.1 ht
    exact List.forall_mem_cons.2 ⟨fits_of_step hu, ih hrest⟩

/-- The tables are kept well in a run exactly if every file reply
that is kept stays inside the structure. -/
theorem tables_right_iff {actions : List Action}
    (hp : AllSteps (Tables.step o) Possible actions {}) :
    Right o actions ↔ ∀ i ∈ actions, Fits o i := by
  constructor
  · rintro ⟨⟨t, ht⟩, -, -⟩
    exact forall_fits_of_exec ht
  · intro hfits
    have hok := hp.and (allSteps_of_mem hfits _)
    have hkept : Along (Tables.step o) WellFormed actions {} :=
      along_of_step (fun _ _ _ h hi ht => (h.keep hi.1 hi.2 ht).1) wellFormed_start hok
    refine ⟨exists_exec (P := WellFormed) (fun i s h hi => ?_) wellFormed_start hok,
      hkept.mono fun s h => ⟨h, h.finds⟩,
      ((hkept.allSteps fun _ _ h => h).and hok).mono fun i s h t ht => (h.1.keep h.2.1 h.2.2 ht).2⟩
    obtain ⟨t, ht, hwf, -⟩ := h.step hi.1 hi.2
    exact ⟨t, ht, hwf⟩

/-- A file reply with one fragment. -/
def oneFragment : FileRep := { fragCount := 1, srcIp := 7, dstIp := 10, fileId := 1, dist := 2 }

/-- Each table gets entries; some are marked and flushed, removed, or given up at the end. -/
def tablesRun : List Action :=
  [.createCache .ascending 1 1 1, .createCache .ascending 1 2 0,
    .createCache .ascending 2 1 0, .removeCache 2,
    .cleanupCacheTable, .createRinfo (some 1) (Vector.replicate 8 0) oneFragment (fun _ => 3),
    .createRinfo (some 2) (Vector.replicate 8 0) oneFragment (fun _ => 4),
    .expireRinfo 1, .flushRinfo,
    .createExtable (some 1) ⟨1, 1, 5, 6, 70⟩, .createExtable none ⟨1, 1, 5, 6, 80⟩,
    .createExtable (some 2) ⟨1, 1, 8, 9, 90⟩, .expireExtable 2, .flushExtable,
    .createCreq (some 4) 1 1,
    .createCreq (some 3) 1 2, .removeCreq 4, .cleanupRinfo]

theorem tables_right_iff_tablesRun : Right .big tablesRun ↔ ∀ i ∈ tablesRun, Fits .big i :=
  tables_right_iff (by decide +kernel)

example : (exec (Tables.step .big) tablesRun {}).map (fun s => [s.cache.entries.map Prod.fst,
      s.rinfo.entries.map Prod.fst, s.extable.entries.map Prod.fst,
      s.crlist.entries.map Prod.fst]) = some [[1], [], [1], [3]] := by
  decide +kernel

/-- One reply arrives. -/
def oneReply : List Action := [.createRinfo (some 1) (Vector.replicate 8 0) oneFragment fun _ => 3]

/-- A host of the other byte order takes the reply for one with 2^24 fragments. -/
theorem not_right_oneReply :
    AllSteps (Tables.step .little) Possible oneReply {} ∧ ¬ Right .little oneReply := by
  refine ⟨⟨rfl, fun _ _ => trivial⟩, ?_⟩
  rintro ⟨⟨t, ht⟩, -, -⟩
  have hfits := forall_fits_of_exec ht _ List.mem_cons_self
  have hfills : rounds .little oneFragment.fragCount ≤ 12 := hfits
  exact absurd hfills (by decide)

end Steps

/-! ## The tables as lists -/

/-- The daemon's lists hold the entries of the tables. -/
structure Follows (s : Tables) (d : Daemon) : Prop where
  ctable : d.ctable = s.cache.entries.map Prod.snd
  rinfo : d.rinfo = s.rinfo.entries.map Prod.snd
  extable : d.extable = s.extable.entries.map Prod.snd
  crlist : d.crlist = s.crlist.entries.map Prod.snd

namespace Follows

variable {o : ByteOrder} {s t : Tables} {d : Daemon}

theorem createCache {kmalloc : Kmalloc} {fileId fragId flag : U32} (h : Follows s d)
    (he : Effect o (.createCache kmalloc fileId fragId flag) s t) :
    Follows t (Caching.createCache (kmalloc.find s.cache.mem).isSome fileId fragId flag d) := by
  obtain ⟨hframe, hfront⟩ := he
  rw [InFront] at hfront
  rw [hframe]
  cases ha : kmalloc.find s.cache.mem with
  | none =>
    rw [ha] at hfront
    exact { h with ctable := h.ctable.trans (congrArg _ hfront.symm) }
  | some a =>
    rw [ha] at hfront
    refine { h with ctable := ?_ }
    show _ :: d.ctable = t.cache.entries.map Prod.snd
    rw [hfront, h.ctable]
    rfl

theorem flushRinfo (h : Follows s d) (he : Effect o .flushRinfo s t) :
    Follows t (Caching.flushRinfo d) := by
  obtain ⟨hframe, hflush⟩ := he
  rw [hframe]
  refine { h with rinfo := ?_ }
  show d.rinfo.filter _ = t.rinfo.entries.map Prod.snd
  rw [hflush, h.rinfo, List.filter_map]
  rfl

theorem flushExtable (h : Follows s d) (he : Effect o .flushExtable s t) :
    Follows t (Caching.flushExtable d) := by
  obtain ⟨hframe, hflush⟩ := he
  rw [hframe]
  refine { h with extable := ?_ }
  show d.extable.filter _ = t.extable.entries.map Prod.snd
  rw [hflush, h.extable, List.filter_map]
  rfl

theorem createExtable {kmalloc : Option ℕ} {m : ExchRep} (h : Follows s d)
    (he : Effect o (.createExtable kmalloc m) s t) :
    Follows t (Caching.createExtable kmalloc.isSome m d) := by
  obtain ⟨hframe, hfront⟩ := he
  rw [InFront] at hfront
  rw [hframe]
  cases kmalloc with
  | none => exact { h with extable := h.extable.trans (congrArg _ hfront.symm) }
  | some a =>
    refine { h with extable := ?_ }
    show _ :: d.extable = t.extable.entries.map Prod.snd
    rw [hfront, h.extable]
    rfl

theorem createCreq {a : ℕ} {fileId fragId : U32} (h : Follows s d)
    (he : Effect o (.createCreq (some a) fileId fragId) s t) :
    Follows t (Caching.createCreq fileId fragId d) := by
  obtain ⟨hframe, hfront⟩ := he
  rw [InFront] at hfront
  rw [hframe]
  refine { h with crlist := ?_ }
  show _ :: d.crlist = t.crlist.entries.map Prod.snd
  rw [hfront, h.crlist]
  rfl

/-- What a search of the daemon comes to is at the address that the search of the table returns. -/
theorem findRinfo (h : Follows s d) (hs : WellFormed s) (fileId : U32) :
    ∃ c : Option (ℕ × FileRepInfo), InMemory.findRinfo s.rinfo.rinfo fileId s.rinfo =
    some (c.map Prod.fst) ∧
      Caching.findRinfo d.rinfo fileId = c.map Prod.snd := by
  have hfind := hs.finds.rinfo [] s.rinfo.entries fileId rfl
  have hhead : s.rinfo.rinfo = firstOf s.rinfo.entries none := hs.rinfo.holds.head_eq
  refine ⟨_, by rw [hhead]; exact hfind, ?_⟩
  rw [Caching.findRinfo, h.rinfo, List.find?_map]
  rfl

end Follows

end Tables

end MobileCloudCaching.Caching.InMemory
