import Mathlib.Data.List.Nodup
import Mathlib.Data.List.Perm.Subperm

/-!
# Linked lists in memory

Memory is a list of cells with their addresses; a pointer is an address or `none`, the null pointer.
`Seg` says that the cells from one pointer to another hold given values: in a singly linked list
`back` asks for nothing, in a doubly linked list it asks that a cell points back to the one before
it.  A list that the program has built is the segment from its head to the null pointer.
-/

namespace Linked

variable {ν α : Type*}

/-! ## Memory -/

/-- The cells that are allocated, with their addresses. -/
structure Memory (ν : Type*) where
  cells : List (ℕ × ν) := []
  deriving DecidableEq

namespace Memory

variable {m : Memory ν} {a b : ℕ} {n n' : ν}

/-- What a pointer leads to, `none` if nothing is allocated there. -/
def get (m : Memory ν) (a : ℕ) : Option ν := (m.cells.find? fun c => c.1 == a).map Prod.snd

def set (m : Memory ν) (a : ℕ) (n : ν) : Memory ν :=
  ⟨m.cells.map fun c => if c.1 = a then (a, n) else c⟩

/-- A write through a pointer. -/
def modify (m : Memory ν) (p : Option ℕ) (f : ν → ν) : Option (Memory ν) :=
  p.bind fun a => (m.get a).map fun n => m.set a (f n)

def alloc (m : Memory ν) (a : ℕ) (n : ν) : Memory ν := ⟨(a, n) :: m.cells⟩

def free (m : Memory ν) (a : ℕ) : Memory ν := ⟨m.cells.filter fun c => c.1 != a⟩

theorem modify_some {f : ν → ν} (h : m.get a = some n) :
    m.modify (some a) f = some (m.set a (f n)) := by
  simp [modify, h]

theorem mem_of_get (h : m.get a = some n) : a ∈ m.cells.map Prod.fst := by
  obtain ⟨c, hc, -⟩ := Option.map_eq_some_iff.1 h
  have ha : c.1 = a := by simpa using List.find?_some hc
  exact ha ▸ List.mem_map_of_mem (List.mem_of_find?_eq_some hc)

theorem get_set_self (h : m.get a = some n') : (m.set a n).get a = some n := by
  obtain ⟨c, hc, -⟩ := Option.map_eq_some_iff.1 h
  have ha : c.1 = a := by simpa using List.find?_some hc
  have hfind : ((fun c : ℕ × ν => c.1 == a) ∘ fun c => if c.1 = a then (a, n) else c) = fun c =>
    c.1 == a := by
    funext c
    by_cases hca : c.1 = a <;> simp [hca]
  rw [get, set, List.find?_map, hfind, hc]
  simp [ha]

theorem get_set_ne (h : b ≠ a) : (m.set a n).get b = m.get b := by
  have hfind : ((fun c : ℕ × ν => c.1 == b) ∘ fun c => if c.1 = a then (a, n) else c) = fun c =>
    c.1 == b := by
    funext c
    by_cases hca : c.1 = a <;> simp [hca]
  rw [get, set, List.find?_map, hfind, get, Option.map_map]
  refine Option.map_congr fun c hc => ?_
  have hb : c.1 = b := by simpa using List.find?_some hc
  simp [hb, h]

theorem isSome_get_set : ((m.set a n).get b).isSome = (m.get b).isSome := by
  by_cases hb : b = a
  · subst hb
    cases hget : m.get b with
    | some n' => rw [get_set_self hget]; rfl
    | none =>
      have hnot : ∀ c ∈ m.cells, c.1 ≠ b := by simpa [get] using hget
      have hcells : (m.cells.map fun c => if c.1 = b then (b, n) else c) = m.cells.map id :=
        List.map_congr_left fun c hc => if_neg (hnot c hc)
      rw [set, hcells, List.map_id, hget]
  · rw [get_set_ne hb]

/-- What a write through a pointer leaves unchanged is unchanged everywhere. -/
theorem map_get_modify {β : Type*} {g : ν → β} {f : ν → ν} {p : Option ℕ} {w : Memory ν}
    (hf : ∀ n, g (f n) = g n) (h : m.modify p f = some w)
    (b : ℕ) : (w.get b).map g = (m.get b).map g := by
  obtain ⟨a, rfl, hw⟩ := Option.bind_eq_some_iff.1 h
  obtain ⟨n, hn, rfl⟩ := Option.map_eq_some_iff.1 hw
  by_cases hb : b = a
  · subst hb
    rw [get_set_self hn, hn, Option.map_some, Option.map_some, hf]
  · rw [get_set_ne hb]

@[simp] theorem get_alloc_self : (m.alloc a n).get a = some n := by simp [get, alloc]

theorem get_alloc_ne (h : b ≠ a) : (m.alloc a n).get b = m.get b := by
  simp [get, alloc, h.symm]

@[simp] theorem get_free_self : (m.free a).get a = none := by simp [get, free]

theorem get_free_ne (h : b ≠ a) : (m.free a).get b = m.get b := by
  rw [get, free, get, List.find?_filter]
  congr 2
  funext c
  by_cases hc : c.1 = b <;> simp [hc, h]

end Memory

/-! ## Segments -/

/-- The addresses of a list are different if one of them is not
among the others, which are different. -/
theorem nodup_middle {c : ℕ × α} {l l' : List (ℕ × α)} :
    ((l ++ c :: l').map Prod.fst).Nodup ↔ c.1 ∉ (l ++ l').map Prod.fst ∧
    ((l ++ l').map Prod.fst).Nodup := by
  rw [(List.perm_middle.map Prod.fst).nodup_iff]
  exact List.nodup_cons

theorem not_mem_of_nodup {c : ℕ × α} {l l' : List (ℕ × α)}
    (h : ((l ++ [c] ++ l').map Prod.fst).Nodup) :
    c.1 ∉ l.map Prod.fst ∧ c.1 ∉ l'.map Prod.fst := by
  rw [List.append_assoc, List.singleton_append, nodup_middle, List.map_append,
    List.mem_append, not_or] at h
  exact h.1

theorem mem_middle {a : ℕ} {c : ℕ × α} {l l' : List (ℕ × α)} :
    a ∈ (l ++ c :: l').map Prod.fst ↔ a = c.1 ∨ a ∈ (l ++ l').map Prod.fst := by
  rw [(List.perm_middle.map Prod.fst).mem_iff]
  exact List.mem_cons

/-- The address of the last cell of `l`, or what stands in front of it. -/
def lastOf (b : Option ℕ) (l : List (ℕ × α)) : Option ℕ := l.foldl (fun _ c => some c.1) b

@[simp] theorem lastOf_nil (b : Option ℕ) : lastOf b ([] : List (ℕ × α)) = b := rfl

@[simp] theorem lastOf_cons (b : Option ℕ) (c : ℕ × α) (l : List (ℕ × α)) :
    lastOf b (c :: l) = lastOf (some c.1) l := rfl

@[simp] theorem lastOf_append (b : Option ℕ) (l l' : List (ℕ × α)) :
    lastOf b (l ++ l') = lastOf (lastOf b l) l' := List.foldl_append

theorem lastOf_none (l : List (ℕ × α)) : lastOf none l = l.getLast?.map Prod.fst := by
  rcases List.eq_nil_or_concat' l with rfl | ⟨l, c, rfl⟩
  · rfl
  · simp

/-- The address of the first cell of `l`, or what stands behind it. -/
def firstOf (l : List (ℕ × α)) (q : Option ℕ) : Option ℕ := l.foldr (fun c _ => some c.1) q

@[simp] theorem firstOf_nil (q : Option ℕ) : firstOf ([] : List (ℕ × α)) q = q := rfl

@[simp] theorem firstOf_cons (c : ℕ × α) (l : List (ℕ × α))
    (q : Option ℕ) : firstOf (c :: l) q = some c.1 := rfl

@[simp] theorem firstOf_append (l l' : List (ℕ × α)) (q : Option ℕ) :
    firstOf (l ++ l') q = firstOf l (firstOf l' q) := List.foldr_append

/-- What is skipped is what a search skips. -/
theorem firstOf_dropWhile (found : ℕ × α → Bool) (l : List (ℕ × α)) :
    firstOf (l.dropWhile fun c => !found c) none = (l.find? found).map Prod.fst := by
  induction l with
  | nil => rfl
  | cons c l ih =>
    by_cases hc : found c = true
    · rw [List.dropWhile_cons_of_neg (by simp [hc]), List.find?_cons_of_pos hc]
      rfl
    · rw [List.dropWhile_cons_of_pos (by simp [hc]), List.find?_cons_of_neg hc, ih]

theorem mem_of_firstOf {l : List (ℕ × α)} {a : ℕ} (h : firstOf l none = some a) :
    a ∈ l.map Prod.fst := by
  cases l with
  | nil => cases h
  | cons c l => exact Option.some.inj h ▸ List.mem_cons_self

/-- Two parts of a list without repetitions do not start with the same cell. -/
theorem firstOf_ne {l l' : List (ℕ × α)} (hl : l ≠ []) (h : ((l ++ l').map Prod.fst).Nodup) :
    firstOf (l ++ l') none ≠ none ∧ firstOf (l ++ l') none ≠ firstOf l' none := by
  cases l with
  | nil => exact absurd rfl hl
  | cons c l =>
    rw [List.cons_append, List.map_cons, List.map_append, List.nodup_cons] at h
    exact ⟨Option.some_ne_none _, fun he => h.1 (List.mem_append_right _ (mem_of_firstOf he.symm))⟩

/-- From `p` on, the cells with the addresses and values of `l` follow each
other up to `q`; `b` is the cell before. -/
inductive Seg (val : ν → α) (next : ν → Option ℕ) (back : Option ℕ → ν → Prop) (m : Memory ν) :
    Option ℕ → Option ℕ → List (ℕ × α) → Option ℕ → Prop
  | nil (b p : Option ℕ) : Seg val next back m b p [] p
  | cons {b : Option ℕ} {a : ℕ} {n : ν} {l : List (ℕ × α)} {q : Option ℕ} (hget : m.get a = some n)
      (hback : back b n) (h : Seg val next back m (some a) (next n) l q) :
      Seg val next back m b (some a) ((a, val n) :: l) q

namespace Seg

variable {val : ν → α} {next : ν → Option ℕ} {back : Option ℕ → ν → Prop} {m w : Memory ν}
  {b p q r : Option ℕ} {a : ℕ} {x : α} {n : ν} {l l₁ l₂ : List (ℕ × α)}

theorem nil_inv (h : Seg val next back m b p [] q) : p = q := by
  cases h
  rfl

theorem cons_inv (h : Seg val next back m b p ((a, x) :: l) q) :
    p = some a ∧ ∃ n, m.get a = some n ∧ val n = x ∧ back b n ∧
    Seg val next back m (some a) (next n) l q := by
  cases h with
  | cons hget hback h => exact ⟨rfl, _, hget, rfl, hback, h⟩

theorem cons' (hget : m.get a = some n) (hx : val n = x) (hback : back b n)
    (h : Seg val next back m (some a) (next n) l q) :
    Seg val next back m b (some a) ((a, x) :: l) q :=
  hx ▸ .cons hget hback h

theorem start (h : Seg val next back m b p l q) : p = firstOf l q := by cases h <;> rfl

/-- What comes before a segment concerns its first cell only. -/
theorem change_before (c : Option ℕ) (h : Seg val next back m b p l q)
    (hb : ∀ n, back b n → back c n) :
    Seg val next back m c p l q := by
  cases h with
  | nil => exact .nil _ _
  | cons hget hback h => exact .cons hget (hb _ hback) h

theorem append (h₁ : Seg val next back m b p l₁ q) (h₂ : Seg val next back m (lastOf b l₁) q l₂ r) :
    Seg val next back m b p (l₁ ++ l₂) r := by
  induction h₁ with
  | nil => exact h₂
  | cons hget hback _ ih => exact .cons hget hback (ih h₂)

theorem split (h : Seg val next back m b p (l₁ ++ l₂) r) :
    ∃ q, Seg val next back m b p l₁ q ∧ Seg val next back m (lastOf b l₁) q l₂ r := by
  induction l₁ generalizing b p with
  | nil => exact ⟨p, .nil b p, h⟩
  | cons c l ih =>
    obtain ⟨rfl, n, hget, hx, hback, h⟩ := cons_inv h
    obtain ⟨q, h₁, h₂⟩ := ih h
    exact ⟨q, .cons' hget hx hback h₁, h₂⟩

theorem last_inv (h : Seg val next back m b p (l ++ [(a, x)]) q) :
    ∃ n, m.get a = some n ∧ val n = x ∧ back (lastOf b l) n ∧ next n = q := by
  obtain ⟨r, -, h⟩ := h.split
  obtain ⟨-, n, hget, hx, hback, h⟩ := h.cons_inv
  exact ⟨n, hget, hx, hback, h.nil_inv⟩

/-- A segment depends on its own cells only. -/
theorem congr (h : Seg val next back m b p l q) (hm : ∀ c ∈ l, w.get c.1 = m.get c.1) :
    Seg val next back w b p l q := by
  induction h with
  | nil => exact .nil _ _
  | cons hget hback _ ih =>
    obtain ⟨ha, hl⟩ := List.forall_mem_cons.1 hm
    exact .cons (ha.trans hget) hback (ih hl)

/-- When cells need not point back, a segment depends on the values and on the pointers it
follows. -/
theorem congr_forward (h : Seg val next (fun _ _ => True) m b p l q)
    (hm : ∀ c ∈ l, (w.get c.1).map (fun n => (val n, next n)) = (m.get c.1).map fun n =>
      (val n, next n)) :
    Seg val next (fun _ _ => True) w b p l q := by
  induction h with
  | nil => exact .nil _ _
  | cons hget hback _ ih =>
    obtain ⟨ha, hl⟩ := List.forall_mem_cons.1 hm
    rw [hget] at ha
    obtain ⟨n, hn, heq⟩ := Option.map_eq_some_iff.1 ha
    obtain ⟨hval, hnext⟩ := Prod.mk.inj heq
    exact .cons' hn hval trivial (hnext ▸ ih hl)

theorem mem_get (h : Seg val next back m b p l q) {c : ℕ × α} (hc : c ∈ l) :
    ∃ n, m.get c.1 = some n ∧ val n = c.2 := by
  induction h with
  | nil => exact absurd hc List.not_mem_nil
  | cons hget _ _ ih =>
    rcases List.mem_cons.1 hc with rfl | hc
    · exact ⟨_, hget, rfl⟩
    · exact ih hc

/-- There are no more cells in a segment than in memory. -/
theorem length_le (h : Seg val next back m b p l q) (hl : (l.map Prod.fst).Nodup) :
    l.length ≤ m.cells.length := by
  have hsub : (l.map Prod.fst).Subperm (m.cells.map Prod.fst) :=
    List.subperm_of_subset hl fun a ha => by
    obtain ⟨c, hc, rfl⟩ := List.mem_map.1 ha
    obtain ⟨n, hn, -⟩ := h.mem_get hc
    exact Memory.mem_of_get hn
  simpa using hsub.length_le

theorem set_of_not_mem (h : Seg val next back m b p l q) (ha : a ∉ l.map Prod.fst) :
    Seg val next back (m.set a n) b p l q :=
  h.congr fun _ hc => Memory.get_set_ne fun he => ha (he ▸ List.mem_map_of_mem hc)

theorem alloc_of_not_mem (h : Seg val next back m b p l q) (ha : a ∉ l.map Prod.fst) :
    Seg val next back (m.alloc a n) b p l q :=
  h.congr fun _ hc => Memory.get_alloc_ne fun he => ha (he ▸ List.mem_map_of_mem hc)

theorem free_of_not_mem (h : Seg val next back m b p l q) (ha : a ∉ l.map Prod.fst) :
    Seg val next back (m.free a) b p l q :=
  h.congr fun _ hc => Memory.get_free_ne fun he => ha (he ▸ List.mem_map_of_mem hc)

/-- The last cell of a segment is made to point somewhere else. -/
theorem set_last (h : Seg val next back m b p (l ++ [(a, x)]) q) (ha : a ∉ l.map Prod.fst)
    (hx : val n = x) (hback : ∀ n', m.get a = some n' → ∀ b, back b n' → back b n) :
    Seg val next back (m.set a n) b p (l ++ [(a, x)]) (next n) := by
  obtain ⟨r, h₁, h₂⟩ := h.split
  obtain ⟨rfl, n', hget, -, hb, -⟩ := h₂.cons_inv
  exact (h₁.set_of_not_mem ha).append
    (.cons' (Memory.get_set_self hget) hx (hback n' hget _ hb) (.nil _ _))

/-- The first cell of a segment is written, and still leads to the rest. -/
theorem set_first (c : Option ℕ) {n' : ν} (h : Seg val next back m b p ((a, x) :: l) q)
    (ha : a ∉ l.map Prod.fst) (hget : m.get a = some n') {y : α} (hy : val n = y)
    (hnext : next n = next n') (hback : back c n) :
    Seg val next back (m.set a n) c (some a) ((a, y) :: l) q := by
  obtain ⟨-, n₀, hget₀, -, -, h⟩ := h.cons_inv
  obtain rfl : n' = n₀ := Option.some.inj (hget.symm.trans hget₀)
  exact .cons' (Memory.get_set_self hget) hy hback (hnext ▸ h.set_of_not_mem ha)

end Seg

/-! ## Walking along a list -/

/-- The cells from `p` on, at most `fuel` of them. -/
def toList (val : ν → α) (next : ν → Option ℕ) (m : Memory ν) : ℕ → Option ℕ → List (ℕ × α)
  | 0, _ => []
  | _ + 1, none => []
  | fuel + 1, some a =>
    match m.get a with
    | none => []
    | some n => (a, val n) :: toList val next m fuel (next n)

theorem Seg.toList {val : ν → α} {next : ν → Option ℕ} {back : Option ℕ → ν → Prop} {m : Memory ν}
    {b p : Option ℕ} {l : List (ℕ × α)} (h : Seg val next back m b p l none) {fuel : ℕ}
    (hfuel : l.length ≤ fuel) :
    toList val next m fuel p = l := by
  induction l generalizing b p fuel with
  | nil =>
    obtain rfl := h.nil_inv
    cases fuel <;> rfl
  | cons c l ih =>
    obtain ⟨a, x⟩ := c
    obtain ⟨rfl, n, hget, rfl, -, h⟩ := h.cons_inv
    cases fuel with
    | zero => exact absurd hfuel (Nat.not_succ_le_zero _)
    | succ fuel =>
      rw [Linked.toList, hget]
      exact congrArg _ (ih h (Nat.le_of_succ_le_succ hfuel))

/-- `while (p != NULL && go(p)) { prev = p; p = p->next; }`: where the walk stops, with the cell
before.  It follows at most `fuel` pointers. -/
def walk (val : ν → α) (next : ν → Option ℕ) (go : α → Bool) (m : Memory ν) :
    ℕ → Option ℕ → Option ℕ → Option (Option ℕ × Option ℕ)
  | _, prev, none => some (prev, none)
  | 0, _, some _ => none
  | fuel + 1, prev, some a => (m.get a).bind fun n =>
    if go (val n) then walk val next go m fuel (some a) (next n) else some (prev, some a)

/-- A walk along a list stops in front of the first cell that does not let it go on. -/
theorem Seg.walk {val : ν → α} {next : ν → Option ℕ} {back : Option ℕ → ν → Prop} {m : Memory ν}
    {b p : Option ℕ} {l : List (ℕ × α)} (h : Seg val next back m b p l none)
    (go : α → Bool) {fuel : ℕ} (hfuel : l.length ≤ fuel) (prev : Option ℕ) :
    walk val next go m fuel prev p = some (lastOf prev (l.takeWhile fun c => go c.2),
      firstOf (l.dropWhile fun c => go c.2) none) := by
  induction l generalizing b p fuel prev with
  | nil =>
    obtain rfl := h.nil_inv
    cases fuel <;> rfl
  | cons c l ih =>
    obtain ⟨a, x⟩ := c
    obtain ⟨rfl, n, hget, rfl, -, h⟩ := h.cons_inv
    cases fuel with
    | zero => exact absurd hfuel (Nat.not_succ_le_zero _)
    | succ fuel =>
      rw [Linked.walk, hget]
      by_cases hgo : go (val n) = true
      · simp only [Option.bind_some, hgo, if_true, List.takeWhile_cons,
          List.dropWhile_cons, lastOf_cons]
        exact ih h (Nat.le_of_succ_le_succ hfuel) (some a)
      · simp [hgo]

/-! ## Freeing a list -/

/-- `while (p != NULL) { dead = p; p = p->next; free(dead); }`: the cells freed, in this order,
and the memory that is left.  Each round frees a cell, so there are no more rounds than cells. -/
def freeAll (val : ν → α) (next : ν → Option ℕ) :
    ℕ → Option ℕ → Memory ν → Option (List (ℕ × α) × Memory ν)
  | _, none, m => some ([], m)
  | 0, some _, _ => none
  | fuel + 1, some a, m => (m.get a).bind fun n =>
    (freeAll val next fuel (next n) (m.free a)).map fun r => ((a, val n) :: r.1, r.2)

@[simp] theorem freeAll_none (val : ν → α) (next : ν → Option ℕ) (fuel : ℕ) (m : Memory ν) :
    freeAll val next fuel none m = some ([], m) := by cases fuel <;> rfl

theorem ne_nil_of_freeAll {val : ν → α} {next : ν → Option ℕ} {m : Memory ν} {a fuel : ℕ}
    {r : List (ℕ × α) × Memory ν} (h : freeAll val next fuel (some a) m = some r) : r.1 ≠ [] := by
  cases fuel with
  | zero => cases h
  | succ fuel =>
    obtain ⟨n, -, hr⟩ := Option.bind_eq_some_iff.1 h
    obtain ⟨r', -, rfl⟩ := Option.map_eq_some_iff.1 hr
    exact List.cons_ne_nil _ _

theorem Memory.length_free_lt {m : Memory ν} {a : ℕ} {n : ν} (h : m.get a = some n) :
    (m.free a).cells.length < m.cells.length := by
  obtain ⟨c, hc, ha⟩ := List.mem_map.1 (mem_of_get h)
  exact List.length_filter_lt_length_iff_exists.2 ⟨c, hc, by simp [ha]⟩

/-- The loop does not come to an end for want of rounds. -/
theorem freeAll_of_le (val : ν → α) (next : ν → Option ℕ) {m : Memory ν} {p : Option ℕ}
    {fuel fuel' : ℕ} (hfuel : m.cells.length ≤ fuel) (hle : fuel ≤ fuel') :
    freeAll val next fuel' p m = freeAll val next fuel p m := by
  induction fuel' generalizing fuel p m with
  | zero =>
    obtain rfl : fuel = 0 := Nat.le_zero.1 hle
    rfl
  | succ fuel' ih =>
    cases p with
    | none => rw [freeAll_none, freeAll_none]
    | some a =>
      rw [freeAll]
      cases hget : m.get a with
      | none => cases fuel <;> simp [freeAll, hget]
      | some n =>
        have hlt := Memory.length_free_lt hget
        cases fuel with
        | zero => omega
        | succ fuel =>
          rw [freeAll, hget, Option.bind_some, Option.bind_some,
            ih (by omega : _ ≤ fuel) (by omega)]

/-- What the loop frees is not in memory afterwards. -/
theorem get_of_freeAll {val : ν → α} {next : ν → Option ℕ} {m : Memory ν} {p : Option ℕ} {fuel : ℕ}
    {r : List (ℕ × α) × Memory ν} (h : freeAll val next fuel p m = some r) :
    (∀ b, m.get b = none → r.2.get b = none) ∧ ∀ c ∈ r.1, r.2.get c.1 = none := by
  induction fuel generalizing p m r with
  | zero =>
    cases p with
    | none =>
      cases h
      exact ⟨fun _ hb => hb, List.forall_mem_nil _⟩
    | some a => cases h
  | succ fuel ih =>
    cases p with
    | none =>
      cases h
      exact ⟨fun _ hb => hb, List.forall_mem_nil _⟩
    | some a =>
      obtain ⟨n, -, hr⟩ := Option.bind_eq_some_iff.1 h
      obtain ⟨r', hr', rfl⟩ := Option.map_eq_some_iff.1 hr
      obtain ⟨hkept, hfreed⟩ := ih hr'
      refine ⟨fun b hb => hkept b ?_, List.forall_mem_cons.2 ⟨hkept a Memory.get_free_self, hfreed⟩⟩
      by_cases hba : b = a
      · rw [hba, Memory.get_free_self]
      · rw [Memory.get_free_ne hba, hb]

/-- The loop frees the cells of a segment, and goes on behind it. -/
theorem Seg.freeAll {val : ν → α} {next : ν → Option ℕ} {back : Option ℕ → ν → Prop} {m : Memory ν}
    {b p q : Option ℕ} {l : List (ℕ × α)} (h : Seg val next back m b p l q)
    (hl : (l.map Prod.fst).Nodup) (fuel : ℕ) :
    freeAll val next (l.length + fuel) p m =
      (freeAll val next fuel q (l.foldl (fun m c => m.free c.1) m)).map fun r =>
        (l ++ r.1, r.2) := by
  induction l generalizing b p m with
  | nil =>
    obtain rfl := h.nil_inv
    simp
  | cons c l ih =>
    obtain ⟨a, x⟩ := c
    obtain ⟨rfl, n, hget, rfl, -, h⟩ := h.cons_inv
    obtain ⟨ha, hl⟩ := List.nodup_cons.1 hl
    have hlen : ((a, val n) :: l).length + fuel = l.length + fuel + 1 := by
      rw [List.length_cons]
      omega
    rw [hlen, Linked.freeAll, hget, Option.bind_some, ih (h.free_of_not_mem ha) hl, Option.map_map]
    rfl

end Linked
