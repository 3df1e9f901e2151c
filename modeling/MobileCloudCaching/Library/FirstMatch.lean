import Mathlib.Data.List.Basic
import Mathlib.Data.List.Count

/-!
# Updating the first match in a list

`modifyFirst p f l` applies `f` to the first element of `l` that satisfies `p`, the way a program
updates a record through the pointer that a search returned.
-/

namespace FirstMatch

variable {α κ : Type*}

/-- Apply `f` to the first element that satisfies `p`. -/
def modifyFirst (p : α → Bool) (f : α → α) : List α → List α
  | [] => []
  | a :: l => if p a then f a :: l else a :: modifyFirst p f l

variable {p q : α → Bool} {f : α → α} {l : List α}

@[simp] theorem modifyFirst_nil : modifyFirst p f [] = [] := rfl

theorem modifyFirst_cons_of_pos {a : α} (h : p a = true) :
    modifyFirst p f (a :: l) = f a :: l := by simp [modifyFirst, h]

theorem modifyFirst_cons_of_neg {a : α} (h : p a = false) :
    modifyFirst p f (a :: l) = a :: modifyFirst p f l := by simp [modifyFirst, h]

@[simp] theorem length_modifyFirst : (modifyFirst p f l).length = l.length := by
  induction l with
  | nil => rfl
  | cons a l ih =>
    cases h : p a
    · simp [modifyFirst_cons_of_neg h, ih]
    · simp [modifyFirst_cons_of_pos h]

/-- Whatever `f` leaves unchanged is unchanged along the list. -/
theorem map_modifyFirst {key : α → κ} (hf : ∀ a, key (f a) = key a) :
    (modifyFirst p f l).map key = l.map key := by
  induction l with
  | nil => rfl
  | cons a l ih =>
    cases h : p a
    · simp [modifyFirst_cons_of_neg h, ih]
    · simp [modifyFirst_cons_of_pos h, hf]

theorem countP_modifyFirst (hf : ∀ a, q (f a) = q a) :
    (modifyFirst p f l).countP q = l.countP q := by
  induction l with
  | nil => rfl
  | cons a l ih =>
    cases h : p a
    · simp [modifyFirst_cons_of_neg h, List.countP_cons, ih]
    · simp [modifyFirst_cons_of_pos h, List.countP_cons, hf]

/-- A search for the same elements finds the modified one. -/
theorem find?_modifyFirst_self (hf : ∀ a, p (f a) = p a) :
    (modifyFirst p f l).find? p = (l.find? p).map f := by
  induction l with
  | nil => rfl
  | cons a l ih =>
    cases h : p a
    · simp [modifyFirst_cons_of_neg h, h, ih]
    · simp [modifyFirst_cons_of_pos h, h, hf]

/-- A search that excludes the modified element is not affected. -/
theorem find?_modifyFirst_of_disjoint (hpq : ∀ a, p a = true → q a = false ∧ q (f a) = false) :
    (modifyFirst p f l).find? q = l.find? q := by
  induction l with
  | nil => rfl
  | cons a l ih =>
    cases h : p a
    · rw [modifyFirst_cons_of_neg h, List.find?_cons, List.find?_cons, ih]
    · rw [modifyFirst_cons_of_pos h, List.find?_cons, List.find?_cons, (hpq a h).1, (hpq a h).2]

theorem mem_modifyFirst {b : α} (h : b ∈ modifyFirst p f l) : b ∈ l ∨ ∃ a ∈ l, b = f a := by
  induction l with
  | nil => simp at h
  | cons a l ih =>
    cases hp : p a
    · rw [modifyFirst_cons_of_neg hp, List.mem_cons] at h
      rcases h with rfl | h
      · exact Or.inl List.mem_cons_self
      · rcases ih h with h | ⟨c, hc, rfl⟩
        · exact Or.inl (List.mem_cons_of_mem _ h)
        · exact Or.inr ⟨c, List.mem_cons_of_mem _ hc, rfl⟩
    · rw [modifyFirst_cons_of_pos hp, List.mem_cons] at h
      rcases h with rfl | h
      · exact Or.inr ⟨a, List.mem_cons_self, rfl⟩
      · exact Or.inl (List.mem_cons_of_mem _ h)

end FirstMatch
