import Mathlib.Data.List.Basic
import Mathlib.Tactic.IntervalCases

/-!
# Octets and byte orders

A 32-bit word in the memory of a host is four octets, most significant first on a big-endian host
and last on a little-endian one.  `store o x` gives the octets of `x`, `load o` reads them back,
and `hton o` is the conversion between host and network order, which is its own inverse.
-/

namespace Octets

abbrev Byte := BitVec 8

/-- The byte order of a host. -/
inductive ByteOrder
  | big
  | little
  deriving DecidableEq, Repr

/-- The word whose octets are, most significant first, `a b c d`. -/
def be32 (a b c d : Byte) : BitVec 32 :=
  BitVec.ofNat 32 (((a.toNat * 256 + b.toNat) * 256 + c.toNat) * 256 + d.toNat)

/-- The octet of weight `256 ^ i`. -/
def octet (x : BitVec 32) (i : ℕ) : Byte := BitVec.ofNat 8 (x.toNat / 256 ^ i)

theorem toNat_be32 (a b c d : Byte) :
    (be32 a b c d).toNat = ((a.toNat * 256 + b.toNat) * 256 + c.toNat) * 256 + d.toNat := by
  have ha := a.isLt
  have hb := b.isLt
  have hc := c.isLt
  have hd := d.isLt
  rw [be32, BitVec.toNat_ofNat, Nat.mod_eq_of_lt (by omega)]

theorem toNat_octet (x : BitVec 32) (i : ℕ) : (octet x i).toNat = x.toNat / 256 ^ i % 256 := by
  simp [octet]

theorem be32_octet (x : BitVec 32) :
    be32 (octet x 3) (octet x 2) (octet x 1) (octet x 0) = x := by
  apply BitVec.eq_of_toNat_eq
  have hx := x.isLt
  simp only [toNat_be32, toNat_octet]
  omega

theorem octet_be32 (a b c d : Byte) : octet (be32 a b c d) 3 = a ∧ octet (be32 a b c d) 2 = b ∧
    octet (be32 a b c d) 1 = c ∧ octet (be32 a b c d) 0 = d := by
  have ha := a.isLt
  have hb := b.isLt
  have hc := c.isLt
  have hd := d.isLt
  refine ⟨?_, ?_, ?_, ?_⟩ <;>
    · apply BitVec.eq_of_toNat_eq
      simp only [toNat_octet, toNat_be32]
      omega

/-- The word with the octets in the opposite order. -/
def swap (x : BitVec 32) : BitVec 32 := be32 (octet x 0) (octet x 1) (octet x 2) (octet x 3)

@[simp] theorem swap_swap (x : BitVec 32) : swap (swap x) = x := by
  obtain ⟨h3, h2, h1, h0⟩ := octet_be32 (octet x 0) (octet x 1) (octet x 2) (octet x 3)
  unfold swap
  rw [h0, h1, h2, h3, be32_octet]

/-- Host order to network order and back (`htonl` and `ntohl` are the same function). -/
def hton : ByteOrder → BitVec 32 → BitVec 32
  | .big, x => x
  | .little, x => swap x

@[simp] theorem hton_big (x : BitVec 32) : hton .big x = x := rfl

@[simp] theorem hton_hton (o : ByteOrder) (x : BitVec 32) : hton o (hton o x) = x := by
  cases o
  · rfl
  · exact swap_swap x

/-- The other order makes a small number the most significant octet. -/
theorem toNat_hton_little_of_lt {x : BitVec 32} (hx : x.toNat < 256) :
    (hton .little x).toNat = x.toNat * 2 ^ 24 := by
  have h1 : x.toNat / 256 = 0 := by omega
  have h2 : x.toNat / 65536 = 0 := by omega
  have h3 : x.toNat / 16777216 = 0 := by omega
  simp only [hton, swap, toNat_be32, toNat_octet, Nat.reducePow, Nat.div_one, h1, h2, h3]
  omega

/-- A number is put in front of the low bits of a word. -/
theorem toNat_shiftLeft_or {hi lo : BitVec 32} {k : ℕ} (hlo : lo.toNat < 2 ^ k)
    (hhi : hi.toNat * 2 ^ k < 2 ^ 32) :
    (hi <<< k ||| lo).toNat = hi.toNat * 2 ^ k + lo.toNat := by
  rw [BitVec.toNat_or, BitVec.toNat_shiftLeft, Nat.shiftLeft_eq, Nat.mod_eq_of_lt hhi,
    ← Nat.shiftLeft_eq, ← Nat.shiftLeft_add_eq_or_of_lt hlo]

/-! ## Words in memory -/

/-- The octets of a word, in the order of the addresses. -/
def store (o : ByteOrder) (x : BitVec 32) : List Byte :=
  [octet (hton o x) 3, octet (hton o x) 2, octet (hton o x) 1, octet (hton o x) 0]

/-- A word that is put into network order is stored as the same octets on every host. -/
theorem store_hton (o r : ByteOrder) (x : BitVec 32) : store r (hton r x) = store o (hton o x) := by
  simp only [store, hton_hton]

/-- The word at offset `i`, when all four octets are there. -/
def load (o : ByteOrder) (data : List Byte) (i : ℕ) : Option (BitVec 32) :=
  match data[i]?, data[i + 1]?, data[i + 2]?, data[i + 3]? with
  | some a, some b, some c, some d => some (hton o (be32 a b c d))
  | _, _, _, _ => none

/-- A word in network order is stored most significant octet first on every host. -/
theorem store_hton_be32 (o : ByteOrder) (a b c d : Byte) :
    store o (hton o (be32 a b c d)) = [a, b, c, d] := by
  obtain ⟨h3, h2, h1, h0⟩ := octet_be32 a b c d
  rw [store, hton_hton, h3, h2, h1, h0]

@[simp] theorem length_store (o : ByteOrder) (x : BitVec 32) : (store o x).length = 4 := rfl

theorem load_isSome_iff (o : ByteOrder) (data : List Byte) (i : ℕ) :
    (load o data i).isSome ↔ i + 4 ≤ data.length := by
  unfold load
  by_cases h : i + 4 ≤ data.length
  · simp [List.getElem?_eq_getElem (show i < data.length by omega),
      List.getElem?_eq_getElem (show i + 1 < data.length by omega),
      List.getElem?_eq_getElem (show i + 2 < data.length by omega),
      List.getElem?_eq_getElem (show i + 3 < data.length by omega), h]
  · have h3 : data[i + 3]? = none := List.getElem?_eq_none (by omega)
    rw [h3]
    simp only [h, iff_false, Bool.not_eq_true]
    split <;> simp_all

/-- The octets of a list of words. -/
def storeAll (o : ByteOrder) (xs : List (BitVec 32)) : List Byte := xs.flatMap (store o)

@[simp] theorem length_storeAll (o : ByteOrder) (xs : List (BitVec 32)) :
    (storeAll o xs).length = 4 * xs.length := by
  induction xs with
  | nil => rfl
  | cons x xs ih =>
    simp only [storeAll, List.flatMap_cons, List.length_append, length_store] at ih ⊢
    simp only [ih, List.length_cons]
    omega

theorem load_append_left {o : ByteOrder} {pre data : List Byte} {i : ℕ} :
    load o (pre ++ data) (pre.length + i) = load o data i := by
  simp only [load, List.getElem?_append_right (Nat.le_add_right _ _), Nat.add_assoc,
    Nat.add_sub_cancel_left]

theorem load_store_append (o o' : ByteOrder) (x : BitVec 32) (rest : List Byte) :
    load o' (store o x ++ rest) 0 = some (hton o' (hton o x)) := by
  simp [load, store, be32_octet]

/-- What one host stores, another host reads as the word seen through both byte orders. -/
theorem load_storeAll (o o' : ByteOrder) (pre : List Byte) (xs : List (BitVec 32)) {i : ℕ}
    (hi : i < xs.length) :
    load o' (pre ++ storeAll o xs) (pre.length + 4 * i) = some (hton o' (hton o xs[i])) := by
  rw [load_append_left]
  induction xs generalizing i with
  | nil => simp at hi
  | cons x xs ih =>
    rw [storeAll, List.flatMap_cons]
    cases i with
    | zero => exact load_store_append o o' x _
    | succ i =>
      have h4 : 4 * (i + 1) = (store o x).length + 4 * i := by rw [length_store]; omega
      rw [h4, load_append_left]
      exact ih (by simpa using hi)

end Octets
