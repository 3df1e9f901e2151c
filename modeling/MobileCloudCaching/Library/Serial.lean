import Mathlib.Algebra.Ring.Int.Defs
import Mathlib.Algebra.Ring.Nat

/-!
# Circular comparison of 32-bit counters

Clocks and sequence numbers that wrap around are compared by the sign of their difference.  On any
stretch of fewer than `2 ^ 31` consecutive values the comparison is the usual order of the numbers
(`before_ofNat_iff`); over the whole circle it is not transitive.
-/

namespace Serial

/-- `a` is older than `b`: the signed 32-bit difference `a - b` is negative. -/
def before (a b : BitVec 32) : Bool := decide ((a - b).toInt < 0)

theorem before_iff (a b : BitVec 32) : before a b = true ↔ (a - b).toInt < 0 := by
  simp [before]

theorem before_self (a : BitVec 32) : before a a = false := by
  simp [before]

theorem before_iff_toNat (a b : BitVec 32) :
    before a b = true ↔ 2 ^ 31 ≤ (a.toNat + (2 ^ 32 - b.toNat)) % 2 ^ 32 := by
  have hb := b.isLt
  rw [before_iff, BitVec.toInt_eq_toNat_cond, BitVec.toNat_sub]
  split <;> omega

/-- Within a window of half the circle, the circular order is the order of the numbers. -/
theorem before_ofNat_iff {a b : ℕ} (h₁ : a < b + 2 ^ 31) (h₂ : b < a + 2 ^ 31) :
    before (BitVec.ofNat 32 a) (BitVec.ofNat 32 b) = true ↔ a < b := by
  rw [before_iff_toNat]
  simp only [BitVec.toNat_ofNat]
  omega

/-! ## Advancing -/

/-- `b` is not older than `a`: the signed difference `b - a` is not negative. -/
def advance (a b : BitVec 32) : Prop := 0 ≤ (b - a).toInt

instance (a b : BitVec 32) : Decidable (advance a b) := inferInstanceAs (Decidable (0 ≤ _))

theorem advance_iff_toNat (a b : BitVec 32) :
    advance a b ↔ (b.toNat + (2 ^ 32 - a.toNat)) % 2 ^ 32 < 2 ^ 31 := by
  have h := before_iff_toNat b a
  rw [before_iff] at h
  rw [advance, ← Int.not_lt, h, Nat.not_le]

@[simp] theorem advance_self (a : BitVec 32) : advance a a := by
  simp [advance]

theorem advance_add_one (a : BitVec 32) : advance a (a + 1) := by
  rw [advance, show a + 1 - a = 1 by bv_omega]
  decide

theorem advance_add_two (a : BitVec 32) : advance a (a + 1 + 1) := by
  rw [advance, show a + 1 + 1 - a = 2 by bv_omega]
  decide

/-- Half of the circle: `a + half` and `a` are each older than the other. -/
def half : BitVec 32 := 0x80000000

theorem toNat_add_half (a : BitVec 32) : (a + half).toNat = (a.toNat + 2 ^ 31) % 2 ^ 32 := by
  rw [BitVec.toNat_add]
  rfl

theorem advance_of_before {a b : BitVec 32} (h : before a b = true) (hne : b ≠ a + half) :
    advance a b := by
  have ha := a.isLt
  have hb := b.isLt
  have hne' : b.toNat ≠ (a + half).toNat := fun he => hne (BitVec.eq_of_toNat_eq he)
  rw [toNat_add_half] at hne'
  rw [before_iff_toNat] at h
  rw [advance_iff_toNat]
  omega

/-- The same when the older counter has been stepped once before the comparison. -/
theorem advance_of_before_add_one {a b : BitVec 32} (h : before (a + 1) b = true)
    (hne : b ≠ a + half) (hne₁ : b ≠ a + 1 + half) : advance a b := by
  have ha := a.isLt
  have hb := b.isLt
  have hadd : (a + 1).toNat = (a.toNat + 1) % 2 ^ 32 := by
    rw [BitVec.toNat_add]
    rfl
  have hne' : b.toNat ≠ (a + half).toNat := fun he => hne (BitVec.eq_of_toNat_eq he)
  have hne₁' : b.toNat ≠ (a + 1 + half).toNat := fun he => hne₁ (BitVec.eq_of_toNat_eq he)
  rw [toNat_add_half] at hne'
  rw [toNat_add_half, hadd] at hne₁'
  rw [before_iff_toNat, hadd] at h
  rw [advance_iff_toNat]
  omega

end Serial
