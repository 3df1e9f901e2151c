import MobileCloudCaching.Library.Linked

/-!
# Singly linked lists with a trailing pointer

The loops over such a list keep a pointer to the cell before, which is null at the first cell.  The
link to a cell is in the cell before it, or in the head.  All cells in memory belong to the list.
-/

namespace Singly

open Linked

variable {α : Type*}

structure Cell (α : Type*) where
  val : α
  next : Option ℕ
  deriving DecidableEq

/-- A list with its memory. -/
structure Heap (α : Type*) where
  mem : Memory (Cell α) := {}
  head : Option ℕ := none
  deriving DecidableEq

/-! ## Operations -/

/-- The pointer in the cell before, or the head. -/
def link (prev : Option ℕ) (s : Heap α) : Option (Option ℕ) :=
  match prev with
  | none => some s.head
  | some a => (s.mem.get a).map Cell.next

/-- `if (prev == NULL) head = p; else prev->next = p;` -/
def setLink (prev p : Option ℕ) (s : Heap α) : Option (Heap α) :=
  match prev with
  | none => some { s with head := p }
  | some a => (s.mem.modify (some a) fun n => { n with next := p }).map fun mem =>
      { s with mem := mem }

/-- A new cell at the address `a`, behind the one before. -/
def insert (prev : Option ℕ) (a : ℕ) (x : α) (s : Heap α) : Option (Heap α) :=
  (link prev s).bind fun next =>
    setLink prev (some a) { s with mem := s.mem.alloc a { val := x, next := next } }

/-- The cell is taken out and freed. -/
def remove (prev : Option ℕ) (a : ℕ) (s : Heap α) : Option (Heap α) := do
  let n ← s.mem.get a
  let s ← setLink prev n.next s
  return { s with mem := s.mem.free a }

/-- `while (p != NULL && !stop(p)) { if (found(p)) return p; p = p->next; } return NULL;` -/
def find (stop found : α → Bool) (m : Memory (Cell α)) : ℕ → Option ℕ → Option (Option ℕ)
  | _, none => some none
  | 0, some _ => none
  | fuel + 1, some a => (m.get a).bind fun n =>
    if stop n.val then some none
    else if found n.val then some (some a)
    else find stop found m fuel n.next

/-- The loop that takes out the dead cells. -/
def sweep (dead : α → Bool) : ℕ → Option ℕ → Option ℕ → Heap α → Option (Heap α)
  | _, _, none, s => some s
  | 0, _, some _, _ => none
  | fuel + 1, prev, some a, s => (s.mem.get a).bind fun n =>
    if dead n.val then (remove prev a s).bind (sweep dead fuel prev n.next)
    else sweep dead fuel (some a) n.next s

/-- All cells are freed. -/
def cleanup (s : Heap α) : Option (Heap α) :=
  (freeAll Cell.val Cell.next s.mem.cells.length s.head s.mem).map fun r =>
    { mem := r.2, head := none }

/-! ## Lists -/

/-- The cells from `p` to `q` hold the list. -/
abbrev Run (m : Memory (Cell α)) (b p : Option ℕ) (l : List (ℕ × α)) (q : Option ℕ) : Prop :=
  Seg Cell.val Cell.next (fun _ _ => True) m b p l q

/-- The list is in memory, and nothing else. -/
structure Holds (s : Heap α) (l : List (ℕ × α)) : Prop where
  run : Run s.mem none s.head l none
  nodup : (l.map Prod.fst).Nodup
  owned : ∀ a, (s.mem.get a).isSome = true → a ∈ l.map Prod.fst

theorem holds_empty : Holds ({} : Heap α) [] where
  run := .nil _ _
  nodup := List.nodup_nil
  owned a h := by simp [Memory.get] at h

section Links

variable {s : Heap α} {m : Memory (Cell α)} {l l₁ l₂ : List (ℕ × α)} {p q : Option ℕ} {a : ℕ}
  {x : α}

theorem link_lastOf (h : Run s.mem none s.head l q) : link (lastOf none l) s = some q := by
  rcases List.eq_nil_or_concat' l with rfl | ⟨l, c, rfl⟩
  · exact congrArg some h.nil_inv
  · obtain ⟨n, hget, -, -, hnext⟩ := h.last_inv
    rw [lastOf_append, lastOf_cons, lastOf_nil, link, hget, Option.map_some, hnext]

/-- A write to the link behind the first part of a list. -/
theorem exists_setLink (h : Run s.mem none s.head l q) (hl : (l.map Prod.fst).Nodup)
    (p : Option ℕ) : ∃ t, setLink (lastOf none l) p s = some t ∧ Run t.mem none t.head l p ∧
      (∀ b, b ∉ l.map Prod.fst → t.mem.get b = s.mem.get b) ∧
      ∀ b, (t.mem.get b).isSome = (s.mem.get b).isSome := by
  rcases List.eq_nil_or_concat' l with rfl | ⟨l, ⟨a, x⟩, rfl⟩
  · exact ⟨_, rfl, .nil _ _, fun _ _ => rfl, fun _ => rfl⟩
  · obtain ⟨n, hget, hx, -, -⟩ := h.last_inv
    have ha : a ∉ l.map Prod.fst := by
      rw [nodup_middle] at hl
      exact fun hin => hl.1 (by simpa using hin)
    refine ⟨{ s with mem := s.mem.set a { n with next := p } }, ?_, ?_, fun b hb => ?_, fun b => ?_⟩
    · rw [lastOf_append, lastOf_cons, lastOf_nil, setLink, Memory.modify_some hget]
      rfl
    · exact h.set_last ha hx fun _ _ _ _ => trivial
    · refine Memory.get_set_ne fun he => hb ?_
      simp [he]
    · exact Memory.isSome_get_set

end Links

namespace Holds

variable {s : Heap α} {l l₁ l₂ : List (ℕ × α)} {a : ℕ} {x : α}

theorem not_mem (h : Holds s l) (ha : s.mem.get a = none) : a ∉ l.map Prod.fst := fun hin => by
  obtain ⟨c, hc, rfl⟩ := List.mem_map.1 hin
  obtain ⟨n, hn, -⟩ := h.run.mem_get hc
  rw [ha] at hn
  cases hn

theorem length_le (h : Holds s l) : l.length ≤ s.mem.cells.length := h.run.length_le h.nodup

theorem split (h : Holds s (l₁ ++ l₂)) : Run s.mem none s.head l₁ (firstOf l₂ none) ∧
    Run s.mem (lastOf none l₁) (firstOf l₂ none) l₂ none ∧ (l₁.map Prod.fst).Nodup ∧
    ∀ c ∈ l₂, c.1 ∉ l₁.map Prod.fst := by
  obtain ⟨q, h₁, h₂⟩ := h.run.split
  obtain rfl : q = firstOf l₂ none := h₂.start
  have hl := h.nodup
  rw [List.map_append, List.nodup_append] at hl
  exact ⟨h₁, h₂, hl.1, fun c hc hin => hl.2.2 c.1 hin c.1 (List.mem_map_of_mem hc) rfl⟩

/-- A new cell between two parts of the list. -/
theorem insert (h : Holds s (l₁ ++ l₂)) (ha : s.mem.get a = none) (x : α) :
    ∃ t, insert (lastOf none l₁) a x s = some t ∧ Holds t (l₁ ++ (a, x) :: l₂) := by
  obtain ⟨h₁, h₂, hl₁, hdisj⟩ := h.split
  have hnot := h.not_mem ha
  have hnot' : a ∉ l₁.map Prod.fst ∧ a ∉ l₂.map Prod.fst := by simpa [not_or] using hnot
  obtain ⟨t, ht, hrun, hframe, hsome⟩ := exists_setLink
    (s := { s with mem := s.mem.alloc a { val := x, next := firstOf l₂ none } })
    (h₁.alloc_of_not_mem hnot'.1) hl₁ (some a)
  have hget : t.mem.get a = some { val := x, next := firstOf l₂ none } :=
    (hframe a hnot'.1).trans Memory.get_alloc_self
  have hrest : Run t.mem (some a) (firstOf l₂ none) l₂ none :=
    ((h₂.alloc_of_not_mem hnot'.2).congr fun c hc => hframe c.1 (hdisj c hc)).change_before _
      fun _ _ => trivial
  refine ⟨t, ?_, hrun.append (.cons' hget rfl trivial hrest), nodup_middle.2 ⟨hnot, h.nodup⟩,
    fun b hb => ?_⟩
  · rw [Singly.insert, link_lastOf h₁, Option.bind_some]
    exact ht
  · rw [hsome] at hb
    by_cases hba : b = a
    · simp [hba]
    · rw [Memory.get_alloc_ne hba] at hb
      exact mem_middle.2 (.inr (h.owned b hb))

theorem remove (h : Holds s (l₁ ++ (a, x) :: l₂)) :
    ∃ t, remove (lastOf none l₁) a s = some t ∧ Holds t (l₁ ++ l₂) := by
  obtain ⟨h₁, h₂, hl₁, hdisj⟩ := h.split
  obtain ⟨ha, hl⟩ := nodup_middle.1 h.nodup
  have ha' : a ∉ l₁.map Prod.fst ∧ a ∉ l₂.map Prod.fst := by simpa [not_or] using ha
  obtain ⟨-, n, hget, -, -, hrest⟩ := h₂.cons_inv
  obtain ⟨t, ht, hrun, hframe, hsome⟩ := exists_setLink h₁ hl₁ n.next
  have hrest' : Run t.mem (lastOf none l₁) n.next l₂ none :=
    (hrest.congr fun c hc => hframe c.1 (hdisj c (List.mem_cons_of_mem _ hc))).change_before _
      fun _ _ => trivial
  refine ⟨{ t with mem := t.mem.free a }, ?_, (hrun.append hrest').free_of_not_mem ha, hl,
    fun b hb => ?_⟩
  · rw [Singly.remove, hget]
    exact congrArg (Option.bind · _) ht
  · by_cases hba : b = a
    · rw [hba, Memory.get_free_self] at hb
      cases hb
    · rw [Memory.get_free_ne hba, hsome] at hb
      exact (mem_middle.1 (h.owned b hb)).resolve_left hba

theorem find_run {m : Memory (Cell α)} {b p : Option ℕ} {fuel : ℕ} (stop found : α → Bool)
    (h : Run m b p l none) (hfuel : l.length ≤ fuel) : Singly.find stop found m fuel p =
      some (((l.takeWhile fun c => !stop c.2).find? fun c => found c.2).map Prod.fst) := by
  induction l generalizing b p fuel with
  | nil =>
    obtain rfl := h.nil_inv
    cases fuel <;> rfl
  | cons c l ih =>
    obtain ⟨a, x⟩ := c
    obtain ⟨rfl, n, hget, rfl, -, h⟩ := h.cons_inv
    cases fuel with
    | zero => exact absurd hfuel (Nat.not_succ_le_zero _)
    | succ fuel =>
      rw [Singly.find, hget, Option.bind_some, List.takeWhile_cons]
      by_cases hstop : stop n.val = true
      · simp [hstop]
      · by_cases hfound : found n.val = true
        · simp [hstop, hfound]
        · simp only [hstop, hfound, Bool.not_false, if_true, List.find?_cons]
          exact ih h (Nat.le_of_succ_le_succ hfuel)

theorem find (h : Holds s l) (stop found : α → Bool) :
    find stop found s.mem s.mem.cells.length s.head =
      some (((l.takeWhile fun c => !stop c.2).find? fun c => found c.2).map Prod.fst) :=
  find_run stop found h.run h.length_le

theorem walk (h : Holds s l) (go : α → Bool) :
    walk Cell.val Cell.next go s.mem s.mem.cells.length none s.head =
      some (lastOf none (l.takeWhile fun c => go c.2),
        firstOf (l.dropWhile fun c => go c.2) none) :=
  h.run.walk go h.length_le none

/-- The sweep goes on behind the first part of the list. -/
theorem sweep_from (dead : α → Bool) {fuel : ℕ} (h : Holds s (l₁ ++ l₂))
    (hfuel : l₂.length ≤ fuel) :
    ∃ t, Singly.sweep dead fuel (lastOf none l₁) (firstOf l₂ none) s = some t ∧
      Holds t (l₁ ++ l₂.filter fun c => !dead c.2) := by
  induction l₂ generalizing l₁ s fuel with
  | nil => exact ⟨s, by cases fuel <;> rfl, h⟩
  | cons c l₂ ih =>
    obtain ⟨a, x⟩ := c
    cases fuel with
    | zero => exact absurd hfuel (Nat.not_succ_le_zero _)
    | succ fuel =>
      obtain ⟨-, n, hget, rfl, -, hrest⟩ := h.split.2.1.cons_inv
      have hfuel := Nat.le_of_succ_le_succ hfuel
      rw [firstOf_cons, Singly.sweep, hget, Option.bind_some, hrest.start]
      by_cases hdead : dead n.val = true
      · obtain ⟨t, ht, hholds⟩ := h.remove
        rw [if_pos hdead, ht, Option.bind_some, List.filter_cons_of_neg (by simp [hdead])]
        exact ih hholds hfuel
      · rw [if_neg hdead, List.filter_cons_of_pos (by simp [hdead])]
        have h' : Holds s ((l₁ ++ [(a, n.val)]) ++ l₂) := by simpa using h
        obtain ⟨t, ht, hholds⟩ := ih h' hfuel
        exact ⟨t, by simpa using ht, by simpa using hholds⟩

theorem sweep (h : Holds s l) (dead : α → Bool) :
    ∃ t, sweep dead s.mem.cells.length none s.head s = some t ∧
      Holds t (l.filter fun c => !dead c.2) := by
  have hlist : Holds s ([] ++ l) := h
  rw [show s.head = firstOf l none from h.run.start]
  exact sweep_from dead hlist h.length_le

/-- A write to the value of a cell. -/
theorem write (h : Holds s (l₁ ++ (a, x) :: l₂)) (f : α → α) :
    ∃ m, s.mem.modify (some a) (fun n => { n with val := f n.val }) = some m ∧
      Holds { s with mem := m } (l₁ ++ (a, f x) :: l₂) := by
  obtain ⟨h₁, h₂, -, -⟩ := h.split
  obtain ⟨ha, -⟩ := nodup_middle.1 h.nodup
  have ha' : a ∉ l₁.map Prod.fst ∧ a ∉ l₂.map Prod.fst := by simpa [not_or] using ha
  obtain ⟨-, n, hget, rfl, -, -⟩ := h₂.cons_inv
  refine ⟨_, Memory.modify_some hget, ?_, by simpa using h.nodup, fun b hb => ?_⟩
  · exact (h₁.set_of_not_mem ha'.1).append
      (h₂.set_first (lastOf none l₁) ha'.2 hget rfl rfl trivial)
  · rw [Memory.isSome_get_set] at hb
    simpa using h.owned b hb

theorem get_val (h : Holds s l) {c : ℕ × α} (hc : c ∈ l) :
    (s.mem.get c.1).map Cell.val = some c.2 := by
  obtain ⟨n, hn, hx⟩ := h.run.mem_get hc
  rw [hn, Option.map_some, hx]

theorem cleanup (h : Holds s l) : ∃ t, cleanup s = some t ∧ Holds t [] := by
  obtain ⟨fuel, hfuel⟩ := Nat.exists_eq_add_of_le h.length_le
  have hfree := h.run.freeAll h.nodup fuel
  rw [← hfuel, freeAll_none, Option.map_some, List.append_nil] at hfree
  obtain ⟨hkept, hfreed⟩ := get_of_freeAll hfree
  refine ⟨_, by rw [Singly.cleanup, hfree, Option.map_some], .nil _ _, List.nodup_nil,
    fun a ha => ?_⟩
  have hnone : (l.foldl (fun m c => m.free c.1) s.mem).get a = none := by
    cases hget : s.mem.get a with
    | none => exact hkept a hget
    | some n =>
      obtain ⟨c, hc, rfl⟩ := List.mem_map.1 (h.owned a (by rw [hget]; rfl))
      exact hfreed c hc
  rw [hnone] at ha
  cases ha

end Holds

end Singly
