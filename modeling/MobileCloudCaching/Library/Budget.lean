import Mathlib.Data.List.Perm.Subperm

/-!
# One item a key, and a budget for each

Items are for keys.  Each use of a key is counted, and an item says how many uses it will still
make.  `Kept` says that no key has two items and that no key is used more than `max` times.
-/

namespace Budget

variable {α κ : Type*} {isFor : κ → α → Bool} {left : α → ℕ} {max : ℕ}

/-- At most one item for each key, and what is used and what is left stays within `max`. -/
structure Kept (isFor : κ → α → Bool) (left : α → ℕ) (max : ℕ) (l : List α)
    (used : κ → ℕ) : Prop where
  one : ∀ k, (l.filter (isFor k)).length ≤ 1
  within : ∀ k, ∀ a ∈ l, isFor k a = true → used k + left a ≤ max
  bound : ∀ k, used k ≤ max

namespace Kept

variable {l l' : List α} {used used' : κ → ℕ} {k₀ : κ} {a : α}

/-- Items may go away or change places. -/
theorem subperm (h : Kept isFor left max l used)
    (hsub : ∀ k, (l'.filter (isFor k)).Subperm (l.filter (isFor k))) :
    Kept isFor left max l' used where
  one k := Nat.le_trans (hsub k).length_le (h.one k)
  within k a ha hk := by
    have hmem := (hsub k).subset (List.mem_filter.2 ⟨ha, hk⟩)
    exact h.within k a (List.mem_filter.1 hmem).1 hk
  bound := h.bound

/-- The count may start again. -/
theorem mono (h : Kept isFor left max l used) (hle : ∀ k, used' k ≤ used k) :
    Kept isFor left max l used' where
  one := h.one
  within k a ha hk := Nat.le_trans (Nat.add_le_add_right (hle k) _) (h.within k a ha hk)
  bound k := Nat.le_trans (hle k) (h.bound k)

/-- A key that has no item is used. -/
theorem use [DecidableEq κ] (h : Kept isFor left max l used) (hnone : l.filter (isFor k₀) = [])
    (hused : used k₀ + 1 ≤ max) :
    Kept isFor left max l fun k => used k + if k = k₀ then 1 else 0 where
  one := h.one
  within k a ha hk := by
    have hne : k ≠ k₀ := by
      rintro rfl
      exact List.filter_eq_nil_iff.1 hnone a ha hk
    rw [if_neg hne]
    exact h.within k a ha hk
  bound k := by
    split
    · exact (‹k = k₀›) ▸ hused
    · exact h.bound k

/-- A key that has no item gets one. -/
theorem add (h : Kept isFor left max l used) (hnone : l.filter (isFor k₀) = [])
    (ha : ∀ k, isFor k a = true → k = k₀) (hleft : used k₀ + left a ≤ max) :
    Kept isFor left max (a :: l) used where
  one k := by
    rw [List.filter_cons]
    split
    · rw [ha k ‹_›, hnone]
      exact Nat.le_refl _
    · exact h.one k
  within k b hb hk := by
    rcases List.mem_cons.1 hb with rfl | hb
    · rw [ha k hk]
      exact hleft
    · exact h.within k b hb hk
  bound := h.bound

end Kept

end Budget
