import MobileCloudCaching.Library.Linked

/-!
# Doubly linked lists in memory

A list hangs on a head pointer; each cell leads to the next one and back to the one before
it, and the first one back to the null pointer.  Entries are put in front of the list and
taken out of its middle by writes to the pointers of their neighbours.  A layout says where a
cell has its value and its pointers.
-/

namespace Doubly

open Linked

variable {ν α : Type*}

/-- How cells hold a value and two pointers. -/
structure Layout (ν α : Type*) where
  val : ν → α
  prev : ν → Option ℕ
  next : ν → Option ℕ
  setPrev : Option ℕ → ν → ν
  setNext : Option ℕ → ν → ν
  val_setPrev : ∀ p n, val (setPrev p n) = val n
  prev_setPrev : ∀ p n, prev (setPrev p n) = p
  next_setPrev : ∀ p n, next (setPrev p n) = next n
  val_setNext : ∀ p n, val (setNext p n) = val n
  prev_setNext : ∀ p n, prev (setNext p n) = prev n
  next_setNext : ∀ p n, next (setNext p n) = p

/-- A cell with nothing but its value and its pointers. -/
structure Cell (α : Type*) where
  val : α
  prev : Option ℕ := none
  next : Option ℕ := none
  deriving DecidableEq

def Cell.layout (α : Type*) : Layout (Cell α) α where
  val := Cell.val
  prev := Cell.prev
  next := Cell.next
  setPrev p c := { c with prev := p }
  setNext p c := { c with next := p }
  val_setPrev _ _ := rfl
  prev_setPrev _ _ := rfl
  next_setPrev _ _ := rfl
  val_setNext _ _ := rfl
  prev_setNext _ _ := rfl
  next_setNext _ _ := rfl

namespace Layout

variable (L : Layout ν α)

/-! ## Operations -/

/-- `if (p) p->prev = q;` -/
def setPrevAt (p q : Option ℕ) (m : Memory ν) : Option (Memory ν) :=
  if p = none then some m else m.modify p (L.setPrev q)

/-- `if (p) p->next = q;` -/
def setNextAt (p q : Option ℕ) (m : Memory ν) : Option (Memory ν) :=
  if p = none then some m else m.modify p (L.setNext q)

/-- The cell at `a` is put in front of the list; its pointers are null. -/
def push (a : ℕ) (m : Memory ν) (head : Option ℕ) : Option (Memory ν × Option ℕ) :=
  if head = none then some (m, some a)
  else do
    let m ← m.modify (some a) (L.setNext head)
    let m ← m.modify head (L.setPrev (some a))
    let first ← head.bind m.get
    return (m, L.prev first)

/-- The cell at `a` is taken out of the list and freed. -/
def remove (a : ℕ) (m : Memory ν) (head : Option ℕ) : Option (Memory ν × Option ℕ) := do
  let dead ← m.get a
  let head := if head = some a then L.next dead else head
  let m ← L.setNextAt (L.prev dead) (L.next dead) m
  let m ← L.setPrevAt (L.next dead) (L.prev dead) m
  return (m.free a, head)

/-- `while (p != NULL && go(p)) p = p->next;` -/
def skip (go : α → Bool) (p : Option ℕ) (m : Memory ν) : Option (Option ℕ) :=
  (walk L.val L.next go m m.cells.length none p).map Prod.snd

/-- `while (p != NULL) { if (dead(p)) { d = p; p = p->next; remove(d); } else p =
p->next; }`, where `remove` acts on a state with the list in its memory.  The
loop follows at most `fuel` pointers. -/
def sweep {σ : Type*} (mem : σ → Memory ν) (remove : ℕ → σ → Option σ) (dead : α → Bool) :
    ℕ → Option ℕ → σ → Option σ
  | _, none, s => some s
  | 0, some _, _ => none
  | fuel + 1, some a, s => ((mem s).get a).bind fun n =>
    if dead (L.val n) then (remove a s).bind (sweep mem remove dead fuel (L.next n))
    else sweep mem remove dead fuel (L.next n) s

/-- The entries on `head`, with their addresses. -/
def entries (m : Memory ν) (head : Option ℕ) : List (ℕ × α) :=
  Linked.toList L.val L.next m m.cells.length head

/-! ## Lists -/

/-- The cells of `l` follow each other from `p` to `q`, and each points back. -/
abbrev Run (m : Memory ν) : Option ℕ → Option ℕ → List (ℕ × α) → Option ℕ → Prop :=
  Seg L.val L.next (fun b n => L.prev n = b) m

/-- The cells of `l`, and no others, hang on `head`. -/
structure Holds (m : Memory ν) (head : Option ℕ) (l : List (ℕ × α)) : Prop where
  run : L.Run m none head l none
  nodup : (l.map Prod.fst).Nodup

variable {L} {m : Memory ν} {b p q head : Option ℕ} {a : ℕ} {x : α} {n : ν} {l l₁ l₂ : List (ℕ × α)}

theorem Run.uncons (h : L.Run m b (firstOf ((a, x) :: l) none) ((a, x) :: l) none) :
    ∃ n, m.get a = some n ∧ L.val n = x ∧ L.next n = firstOf l none ∧
    L.Run m (some a) (firstOf l none) l none := by
  obtain ⟨-, n, hget, hx, -, hrun⟩ := h.cons_inv
  have hnext : L.next n = firstOf l none := hrun.start
  exact ⟨n, hget, hx, hnext, hnext ▸ hrun⟩

theorem Run.skip (h : L.Run m b (firstOf l none) l none) (hcells : l.length ≤ m.cells.length)
    (go : α → Bool) :
    L.skip go (firstOf l none) m = some (firstOf (l.dropWhile fun c => go c.2) none) := by
  have hwalk := h.walk go hcells none
  exact congrArg (Option.map Prod.snd) hwalk

/-- The first cell, if there is one, is made to point back to `c`. -/
theorem Run.exists_setPrevAt (h : L.Run m b p l none) (hl : (l.map Prod.fst).Nodup) (c : Option ℕ) :
    ∃ w, L.setPrevAt p c m = some w ∧ L.Run w c p l none ∧
    (∀ e ∉ l.map Prod.fst, w.get e = m.get e) ∧
      ∀ e, (w.get e).isSome = (m.get e).isSome := by
  cases l with
  | nil =>
    obtain rfl := h.nil_inv
    exact ⟨m, if_pos rfl, .nil _ _, fun _ _ => rfl, fun _ => rfl⟩
  | cons d l =>
    obtain ⟨a, x⟩ := d
    obtain ⟨rfl, n, hget, rfl, -, -⟩ := h.cons_inv
    obtain ⟨ha, -⟩ := List.nodup_cons.1 hl
    refine ⟨_, (if_neg (Option.some_ne_none a)).trans (Memory.modify_some hget), ?_,
        fun e he => ?_, fun e =>
      Memory.isSome_get_set⟩
    · exact h.set_first c ha hget (L.val_setPrev c n) (L.next_setPrev c n) (L.prev_setPrev c n)
    · exact Memory.get_set_ne fun hea => he (hea ▸ List.mem_cons_self)

/-- The last cell, if there is one, is made to lead to `c`. -/
theorem Run.exists_setNextAt (h : L.Run m none p l q) (hl : (l.map Prod.fst).Nodup) (c : Option ℕ) :
    ∃ w, L.setNextAt (lastOf none l) c m = some w ∧ L.Run w none (if l = [] then c else p) l c ∧
      (∀ e ∉ l.map Prod.fst, w.get e = m.get e) ∧ ∀ e, (w.get e).isSome = (m.get e).isSome := by
  rcases List.eq_nil_or_concat' l with rfl | ⟨l₀, ⟨a, x⟩, rfl⟩
  · exact ⟨m, if_pos rfl, .nil _ _, fun _ _ => rfl, fun _ => rfl⟩
  · obtain ⟨n, hget, rfl, -, rfl⟩ := h.last_inv
    have hlast : lastOf none (l₀ ++ [(a, L.val n)]) = some a := lastOf_append _ _ _
    have ha : a ∉ l₀.map Prod.fst := by simpa using (nodup_middle.1 hl).1
    rw [hlast, setNextAt, if_neg (Option.some_ne_none a), if_neg (by simp)]
    refine ⟨_, Memory.modify_some hget, ?_, fun e he => ?_, fun e => Memory.isSome_get_set⟩
    · have hset := h.set_last (n := L.setNext c n) ha (L.val_setNext c n) fun n' hn' b hb => by
        obtain rfl : n = n' := Option.some.inj (hget.symm.trans hn')
        rw [L.prev_setNext]
        exact hb
      rwa [L.next_setNext] at hset
    · exact Memory.get_set_ne fun hea => he (by simp [hea])

namespace Holds

theorem nil (m : Memory ν) : L.Holds m none [] := ⟨.nil _ _, List.nodup_nil⟩

theorem head_eq (h : L.Holds m head l) : head = firstOf l none := h.run.start

theorem length_le (h : L.Holds m head l) : l.length ≤ m.cells.length := h.run.length_le h.nodup

theorem entries (h : L.Holds m head l) : L.entries m head = l := h.run.toList h.length_le

theorem not_mem (h : L.Holds m head l) (ha : m.get a = none) : a ∉ l.map Prod.fst := fun hmem => by
  obtain ⟨c, hc, rfl⟩ := List.mem_map.1 hmem
  obtain ⟨n, hn, -⟩ := h.run.mem_get hc
  cases hn.symm.trans ha

theorem alloc (h : L.Holds m head l) (ha : m.get a = none) : L.Holds (m.alloc a n) head l :=
  ⟨h.run.alloc_of_not_mem (h.not_mem ha), h.nodup⟩

/-- An entry in the middle: its cell, and what its pointers lead to. -/
theorem get (h : L.Holds m head (l₁ ++ (a, x) :: l₂)) :
    ∃ n, m.get a = some n ∧ L.val n = x ∧ L.prev n = lastOf none l₁ ∧
    L.next n = firstOf l₂ none := by
  obtain ⟨q, -, hcell⟩ := h.run.split
  obtain ⟨-, n, hget, hx, hprev, h₂⟩ := hcell.cons_inv
  exact ⟨n, hget, hx, hprev, h₂.start⟩

theorem start (h : L.Holds m head l) : L.Run m none (firstOf l none) l none := h.head_eq ▸ h.run

/-- The end of a list. -/
theorem suffix (h : L.Holds m head (l₁ ++ l₂)) :
    L.Run m (lastOf none l₁) (firstOf l₂ none) l₂ none ∧ l₂.length ≤ m.cells.length := by
  obtain ⟨q, -, h₂⟩ := h.run.split
  have hle := h.length_le
  rw [List.length_append] at hle
  obtain rfl : q = firstOf l₂ none := h₂.start
  exact ⟨h₂, by omega⟩

/-- A write to the value of an entry. -/
theorem write {y : α} {w : ν} (h : L.Holds m head (l₁ ++ (a, x) :: l₂)) (hget : m.get a = some n)
    (hy : L.val w = y) (hprev : L.prev w = L.prev n) (hnext : L.next w = L.next n) :
    L.Holds (m.set a w) head (l₁ ++ (a, y) :: l₂) := by
  obtain ⟨n', hget', -, hb, -⟩ := h.get
  obtain rfl : n = n' := Option.some.inj (hget.symm.trans hget')
  have ha := (nodup_middle.1 h.nodup).1
  rw [List.map_append, List.mem_append, not_or] at ha
  obtain ⟨q, h₁, hcell⟩ := h.run.split
  obtain rfl : q = some a := hcell.start
  exact ⟨(h₁.set_of_not_mem ha.1).append
    (hcell.set_first (lastOf none l₁) ha.2 hget hy hnext (hprev.trans hb)),
    by simpa using h.nodup⟩

theorem push (h : L.Holds m head l) (hget : m.get a = some n) (ha : a ∉ l.map Prod.fst)
    (hx : L.val n = x) (hprev : L.prev n = none) (hnext : L.next n = none) :
    ∃ w, L.push a m head = some (w, some a) ∧ L.Holds w (some a) ((a, x) :: l) := by
  have hnodup : (((a, x) :: l).map Prod.fst).Nodup := List.nodup_cons.2 ⟨ha, h.nodup⟩
  cases l with
  | nil =>
    obtain rfl : head = none := h.head_eq
    exact ⟨m, if_pos rfl, .cons' hget hx hprev (hnext ▸ .nil _ _), hnodup⟩
  | cons c l =>
    obtain ⟨b, y⟩ := c
    obtain ⟨rfl, nb, hb, rfl, -, -⟩ := h.run.cons_inv
    obtain ⟨hbl, -⟩ := List.nodup_cons.1 h.nodup
    have hba : b ≠ a := fun he => ha (he ▸ List.mem_cons_self)
    have hb' : (m.set a (L.setNext (some b) n)).get b = some nb := (Memory.get_set_ne hba).trans hb
    have hrest :=
      (h.run.set_of_not_mem (n := L.setNext (some b) n) ha).set_first
      (n := L.setPrev (some a) nb) (some a)
      hbl hb' (L.val_setPrev _ _) (L.next_setPrev _ _) (L.prev_setPrev _ _)
    refine ⟨(m.set a (L.setNext (some b) n)).set b (L.setPrev (some a) nb), ?_, ?_, hnodup⟩
    · rw [Layout.push, if_neg (Option.some_ne_none b)]
      simp only [Memory.modify_some hget, Memory.modify_some hb', Option.bind_eq_bind,
        Option.bind_some, Memory.get_set_self hb', L.prev_setPrev]
      rfl
    · refine .cons' ((Memory.get_set_ne hba.symm).trans (Memory.get_set_self hget)) ?_ ?_ ?_
      · rw [L.val_setNext, hx]
      · rw [L.prev_setNext, hprev]
      · rwa [L.next_setNext]

theorem remove (h : L.Holds m head (l₁ ++ (a, x) :: l₂)) :
    ∃ w p, L.remove a m head = some (w, p) ∧ L.Holds w p (l₁ ++ l₂) := by
  obtain ⟨n, hget, -, hprev, hnext⟩ := h.get
  obtain ⟨q, h₁, hcell⟩ := h.run.split
  obtain ⟨-, n', hget', -, -, h₂⟩ := hcell.cons_inv
  obtain rfl : n = n' := Option.some.inj (hget.symm.trans hget')
  obtain ⟨ha, hl⟩ := nodup_middle.1 h.nodup
  have hl' := hl
  rw [List.map_append, List.nodup_append] at hl'
  have hdisj : ∀ e ∈ l₂, e.1 ∉ l₁.map Prod.fst := fun e he hin =>
    hl'.2.2 e.1 hin e.1 (List.mem_map_of_mem he) rfl
  obtain ⟨m₁, hm₁, hrun₁, hframe₁, -⟩ := Run.exists_setNextAt h₁ hl'.1 (L.next n)
  have hrun₂ : L.Run m₁ (some a) (L.next n) l₂ none := h₂.congr fun e he => hframe₁ e.1 (hdisj e he)
  obtain ⟨m₂, hm₂, hrun₂, hframe₂, -⟩ := Run.exists_setPrevAt hrun₂ hl'.2.1 (L.prev n)
  refine ⟨m₂.free a, if l₁ = [] then L.next n else head, ?_, ?_, hl⟩
  · have hfirst : head = some a ↔ l₁ = [] := by
      rw [h.head_eq]
      cases l₁ with
      | nil => simp
      | cons c l₁ => simpa using fun he : c.1 = a => ha (by simp [he])
    rw [Layout.remove, hget]
    simp only [Option.bind_eq_bind, Option.bind_some, hprev] at hm₂ ⊢
    rw [hm₁, Option.bind_some, hm₂]
    simp [hfirst]
  · have hbefore := hrun₁.congr (w := m₂) fun e he => hframe₂ e.1 fun hin => by
      obtain ⟨e', he', hee⟩ := List.mem_map.1 hin
      exact hdisj e' he' (hee ▸ List.mem_map_of_mem he)
    rw [hprev] at hrun₂
    exact (hbefore.append hrun₂).free_of_not_mem ha

/-- A search from any place in the list finds the first entry that it looks for. -/
theorem skip (h : L.Holds m head (l₁ ++ l₂)) {go found : α → Bool} (hgo : ∀ x, go x = !found x) :
    L.skip go (firstOf l₂ none) m = some ((l₂.find? fun c => found c.2).map Prod.fst) := by
  obtain ⟨hrun, hlen⟩ := h.suffix
  have hnot : (fun c : ℕ × α => go c.2) = fun c => !found c.2 := funext fun c => hgo c.2
  rw [hrun.skip hlen, hnot, firstOf_dropWhile]

/-- All entries are freed, and nothing else. -/
theorem freeAll (h : L.Holds m head l) : ∃ w, freeAll L.val L.next m.cells.length head m =
    some (l, w) := by
  obtain ⟨fuel, hfuel⟩ := Nat.exists_eq_add_of_le h.length_le
  rw [hfuel, h.run.freeAll h.nodup, freeAll_none]
  exact ⟨_, by rw [Option.map_some, List.append_nil]⟩

end Holds

section Sweep

variable {σ : Type*} {mem : σ → Memory ν} {head : σ → Option ℕ} {remove : ℕ → σ → Option σ}
  {P : σ → List (ℕ × α) → Prop}

/-- The sweep takes out the dead entries and keeps the others in
order, if `remove` takes out one entry. -/
theorem sweep_from (hholds : ∀ s l, P s l → L.Holds (mem s) (head s) l)
    (hremove : ∀ s l₁ a x l₂, P s (l₁ ++ (a, x) :: l₂) → ∃ t, remove a s = some t ∧ P t (l₁ ++ l₂))
    (dead : α → Bool) {s : σ} {fuel : ℕ} (h : P s (l₁ ++ l₂)) (hfuel : l₂.length ≤ fuel) :
    ∃ t, L.sweep mem remove dead fuel (firstOf l₂ none) s = some t ∧
    P t (l₁ ++ l₂.filter fun c => !dead c.2) := by
  induction l₂ generalizing l₁ s fuel with
  | nil => exact ⟨s, by cases fuel <;> rfl, h⟩
  | cons c l₂ ih =>
    obtain ⟨a, x⟩ := c
    obtain ⟨n, hget, rfl, -, hnext⟩ := (hholds s _ h).get
    cases fuel with
    | zero => exact absurd hfuel (Nat.not_succ_le_zero _)
    | succ fuel =>
      have hfuel := Nat.le_of_succ_le_succ hfuel
      rw [firstOf_cons, sweep, hget, Option.bind_some, hnext]
      by_cases hdead : dead (L.val n) = true
      · obtain ⟨t, ht, hP⟩ := hremove s l₁ a (L.val n) l₂ h
        rw [if_pos hdead, ht, Option.bind_some, List.filter_cons_of_neg (by simp [hdead])]
        exact ih hP hfuel
      · rw [if_neg hdead, List.filter_cons_of_pos (by simp [hdead])]
        have h' : P s ((l₁ ++ [(a, L.val n)]) ++ l₂) := by simpa using h
        obtain ⟨t, ht, hP⟩ := ih h' hfuel
        exact ⟨t, ht, by simpa using hP⟩

theorem sweep_spec (P : σ → List (ℕ × α) → Prop)
    (hholds : ∀ s l, P s l → L.Holds (mem s) (head s) l)
    (hremove : ∀ s l₁ a x l₂, P s (l₁ ++ (a, x) :: l₂) → ∃ t, remove a s = some t ∧ P t (l₁ ++ l₂))
    (dead : α → Bool) {s : σ} (h : P s l) :
    ∃ t, L.sweep mem remove dead (mem s).cells.length (head s) s = some t ∧
    P t (l.filter fun c => !dead c.2) := by
  have hlist : P s ([] ++ l) := h
  rw [(hholds s l h).head_eq]
  exact sweep_from hholds hremove dead hlist (hholds s l h).length_le

end Sweep

/-! ## Well-formed lists -/

/-- The list from `head` ends, nothing is before its first cell, and neighbours lead to each
other. -/
structure WellFormed (L : Layout ν α) (m : Memory ν) (head : Option ℕ) : Prop where
  holds : L.Holds m head (L.entries m head)
  first : ∀ a ∈ head, (m.get a).map L.prev = some none
  neighbours : ∀ l₁ c c' l₂, L.entries m head = l₁ ++ c :: c' :: l₂ →
    (m.get c.1).map L.next = some (some c'.1) ∧ (m.get c'.1).map L.prev = some (some c.1)

theorem Holds.wellFormed (h : L.Holds m head l) : WellFormed L m head where
  holds := h.entries.symm ▸ h
  first a ha := by
    cases l with
    | nil =>
      obtain rfl : head = none := h.head_eq
      cases ha
    | cons c l =>
      obtain ⟨hp, n, hget, -, hprev, -⟩ := h.run.cons_inv
      obtain rfl : c.1 = a := Option.some.inj (hp.symm.trans ha)
      rw [hget, Option.map_some, hprev]
  neighbours l₁ c c' l₂ hl := by
    obtain rfl : l = _ := h.entries.symm.trans hl
    obtain ⟨q, -, hcell⟩ := h.run.split
    obtain ⟨-, n, hget, -, -, hrest⟩ := hcell.cons_inv
    obtain ⟨hnext, n', hget', -, hprev, -⟩ := hrest.cons_inv
    rw [hget, hget', Option.map_some, Option.map_some, hnext, hprev]
    exact ⟨rfl, rfl⟩

end Layout

theorem Cell.uncons {m : Memory (Cell α)} {b : Option ℕ} {a : ℕ} {x : α} {l : List (ℕ × α)}
    (h : (Cell.layout α).Run m b (firstOf ((a, x) :: l) none) ((a, x) :: l) none) :
    ∃ n, m.get a = some n ∧ n.val = x ∧ n.next = firstOf l none ∧
      (Cell.layout α).Run m (some a) (firstOf l none) l none :=
  Layout.Run.uncons h

/-- A new cell, whose pointers are null, is put in front of the list. -/
theorem Cell.push {m : Memory (Cell α)} {head : Option ℕ} {a : ℕ} {l : List (ℕ × α)}
    (h : (Cell.layout α).Holds m head l) (ha : m.get a = none) (x : α) :
    ∃ w, (Cell.layout α).push a (m.alloc a { val := x, prev := none, next := none }) head =
    some (w, some a) ∧
      (Cell.layout α).Holds w (some a) ((a, x) :: l) := by
  have hnew : (m.alloc a { val := x, prev := none, next := none }).get a =
      some { val := x, prev := none, next := none } := Memory.get_alloc_self
  exact (h.alloc ha).push hnew (h.not_mem ha) rfl rfl rfl

/-- A write to the value of an entry. -/
theorem Cell.write {m : Memory (Cell α)} {head : Option ℕ} {a : ℕ} {x : α} {l₁ l₂ : List (ℕ × α)}
    (h : (Cell.layout α).Holds m head (l₁ ++ (a, x) :: l₂)) (f : α → α) :
    ∃ w, m.modify (some a) (fun n => { n with val := f n.val }) = some w ∧
      (Cell.layout α).Holds w head (l₁ ++ (a, f x) :: l₂) := by
  obtain ⟨n, hget, hx, -, -⟩ := h.get
  exact ⟨_, Memory.modify_some hget, h.write hget (congrArg f hx) rfl rfl⟩

end Doubly
