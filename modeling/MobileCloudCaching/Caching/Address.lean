import MobileCloudCaching.Caching.Directory
import Mathlib.Data.List.Forall2

/-!
# Addresses in text (`cUtils.c`)

`inet_aton` reads an address in any of the notations that C programs accept, and `inet_ntoa` writes
one as four decimal numbers.  The scanner keeps the value of a numeral in an unsigned int, whatever
its length, and takes a numeral for complete at the first character that is no digit, whether there
was a digit or not.  The utilities of the routing module have the same code, and so has
`my_inet_aton` of the file system (`fUtils.c`), but for its own `isspace`, which counts the
backspace as white space and the vertical tab not.
-/

namespace MobileCloudCaching.Caching

open Octets

/-! ## The scanner -/

def isascii (c : Byte) : Bool := decide (c ≤ 0x7F)

/-! The classes of `ctype.h`, on ASCII characters. -/

def isdigit (c : Byte) : Bool := decide (ascii '0' ≤ c) && decide (c ≤ ascii '9')

def islower (c : Byte) : Bool := decide (ascii 'a' ≤ c) && decide (c ≤ ascii 'z')

def isxdigit (c : Byte) : Bool :=
  isdigit c || (decide (ascii 'a' ≤ c) && decide (c ≤ ascii 'f')) || (decide (ascii 'A' ≤ c) &&
    decide (c ≤ ascii 'F'))

def isspace (c : Byte) : Bool := [0x20, 0x09, 0x0A, 0x0B, 0x0C, 0x0D].contains c

/-- What ends an address for a scanner with this test of white space. -/
def blank (space : Byte → Bool) (c : Byte) : Bool := isascii c && space c

/-- The base that the first characters announce, and where the digits begin. -/
def radix : Name → ℕ × Name
  | [] => (10, [])
  | c :: cp =>
    if c = ascii '0' then
      match cp with
      | [] => (8, [])
      | x :: digits => if x = ascii 'x' ∨ x = ascii 'X' then (16, digits) else (8, x :: digits)
    else (10, c :: cp)

/-- The loop over the digits: the value, and where it stops. -/
def scanDigits (base : ℕ) : Name → U32 → U32 × Name
  | [], val => (val, [])
  | c :: cp, val =>
    if isascii c && isdigit c then
      scanDigits base cp (val * BitVec.ofNat 32 base + (c.setWidth 32 - (ascii '0').setWidth 32))
    else if base == 16 && isascii c && isxdigit c then
      scanDigits base cp ((val <<< 4) +
        (c.setWidth 32 + 10 - (if islower c then ascii 'a' else ascii 'A').setWidth 32))
    else (val, c :: cp)

/-- The number that begins at `cp`. -/
def scanNumber (cp : Name) : U32 × Name := scanDigits (radix cp).1 (radix cp).2 0

/-- The loop of `inet_aton`, while there is room for `room` more parts: the parts in front of a
dot, the last value, and where it stops. -/
def scanParts (room : ℕ) (cp : Name) : Option (List U32 × U32 × Name) :=
  match scanNumber cp with
  | (val, []) => some ([], val, [])
  | (val, c :: cp) =>
    if c = ascii '.' then
      match room with
      | 0 => none
      | room + 1 =>
        if 0xff < val then none
        else (scanParts room cp).map fun (parts, last) => (val :: parts, last)
    else some ([], val, c :: cp)

/-- Nothing but white space may follow the number. -/
def trailing (space : Byte → Bool) : Name → Bool
  | [] => true
  | c :: _ => blank space c

/-- The address made of the parts. -/
def concoct : List U32 → U32 → Option U32
  | [], val => some val
  | [a], val => if 0xffffff < val then none else some (val ||| (a <<< 24))
  | [a, b], val => if 0xffff < val then none else some (val ||| ((a <<< 24) ||| (b <<< 16)))
  | [a, b, c], val =>
      if 0xff < val then none else some (val ||| ((a <<< 24) ||| (b <<< 16) ||| (c <<< 8)))
  | _, val => some val

/-- What the scanner stores when it returns 1. -/
def scanAddress (space : Byte → Bool) (o : ByteOrder) (cp : Name) : Option U32 := do
  let (parts, val, cp) ← scanParts 3 cp
  if trailing space cp then (concoct parts val).map (hton o) else none

/-- `inet_aton`, of the modules, with the test of the kernel. -/
def inetAton : ByteOrder → Name → Option U32 := scanAddress isspace

/-- `my_inet_aton`, of the file system, with its own test. -/
def myInetAton : ByteOrder → Name → Option U32 := scanAddress myIsspace

/-- A number in decimal digits, as `%d` writes it. -/
def decimalText (n : ℕ) : Name := (Nat.toDigits 10 n).map ascii

/-- `inet_ntoa`: the octets of the address in the order of memory. -/
def inetNtoa (o : ByteOrder) (ina : U32) : Name :=
  [ascii '.'].intercalate ((store o ina).map fun x => decimalText x.toNat)

/-! ## Numerals -/

/-- The value of a digit, and 16 for any other character. -/
def digit (c : Byte) : ℕ :=
  if 48 ≤ c.toNat ∧ c.toNat ≤ 57 then c.toNat - 48
  else if 97 ≤ c.toNat ∧ c.toNat ≤ 102 then c.toNat - 87
  else if 65 ≤ c.toNat ∧ c.toNat ≤ 70 then c.toNat - 55
  else 16

/-- The number that digits stand for, when those in front of them stand for `n`. -/
def valueFrom (base n : ℕ) (digits : Name) : ℕ := digits.foldl (fun n c => n * base + digit c) n

/-- The numerals of C, and what they stand for. -/
inductive CNumeral : Name → ℕ → Prop
  | decimal {c : Byte} {l : Name} (hc : c ≠ ascii '0') (hl : ∀ x ∈ c :: l, digit x < 10) :
      CNumeral (c :: l) (valueFrom 10 0 (c :: l))
  | octal {l : Name} (hl : ∀ x ∈ l, digit x < 8) : CNumeral (ascii '0' :: l) (valueFrom 8 0 l)
  | hex {x : Byte} {l : Name} (hx : x = ascii 'x' ∨ x = ascii 'X') (hne : l ≠ []) (hl :
      ∀ c ∈ l, digit c < 16) :
      CNumeral (ascii '0' :: x :: l) (valueFrom 16 0 l)

/-- What stands between the dots, up to the first white space. -/
def fields (space : Byte → Bool) (s : Name) : List Name :=
  (s.takeWhile fun c => !blank space c).splitOn (ascii '.')

/-- The address that the parts denote, when each of them is in its range. -/
def denoted : List ℕ → Option ℕ
  | [a] => if a < 2 ^ 32 then some a else none
  | [a, b] => if a ≤ 255 ∧ b < 2 ^ 24 then some (a * 2 ^ 24 + b) else none
  | [a, b, c] => if a ≤ 255 ∧ b ≤ 255 ∧ c < 2 ^ 16 then some (a * 2 ^ 24 + b * 2 ^ 16 + c) else none
  | [a, b, c, d] =>
    if a ≤ 255 ∧ b ≤ 255 ∧ c ≤ 255 ∧
      d ≤ 255 then some (a * 2 ^ 24 + b * 2 ^ 16 + c * 2 ^ 8 + d) else none
  | _ => none

/-- What is accepted is one to four C numerals in range, and the address is the one they denote. -/
def Sound (aton : ByteOrder → Name → Option U32) (o : ByteOrder) (s : Name) : Prop :=
  ∀ addr, aton o s = some addr → ∃ values, List.Forall₂ CNumeral (fields isspace s) values ∧
    denoted values = some (hton o addr).toNat

/-- An address comes back from its text. -/
def RoundTrip (aton : ByteOrder → Name → Option U32) (o : ByteOrder) (a : U32) : Prop :=
  aton o (inetNtoa o a) = some a

/-! ## What the scanner takes for a number -/

/-- The loop goes on at a decimal digit in every base. -/
def widest (base : ℕ) : ℕ := max base 10

/-- Nothing but digits follows the announcement of the base, as far as the loop can tell. -/
def Scans (field : Name) : Prop := ∀ c ∈ (radix field).2, digit c < widest (radix field).1

instance (field : Name) : Decidable (Scans field) :=
  inferInstanceAs (Decidable (∀ c ∈ (radix field).2, digit c < widest (radix field).1))

/-- The number that the field stands for, in its base. -/
def numeral (field : Name) : ℕ := valueFrom (radix field).1 0 (radix field).2

/-- The loop takes for a number what is none, or is too large: there is no digit, a digit is not
of the base, or 32 bits do not hold the number. -/
def Misread (field : Name) : Prop :=
  ((radix field).2 = [] ∧ (radix field).1 ≠ 8) ∨
    (∃ c ∈ (radix field).2, (radix field).1 ≤ digit c) ∨
    2 ^ 32 ≤ numeral field

/-- A string that passes all checks, the numbers taken modulo `2 ^ 32`, with a field that is
misread, or with a character behind the fields that is no white space. -/
structure Irregular (space : Byte → Bool) (s : Name) : Prop where
  scans : ∀ field ∈ fields space s, Scans field
  inRange : (denoted ((fields space s).map fun field => numeral field % 2 ^ 32)).isSome
  misread : (∃ field ∈ fields space s, Misread field) ∨
    ∃ c ∈ s.find? (blank space), blank isspace c = false

/-- White space is nothing that a numeral or a dot is made of. -/
structure Blanks (space : Byte → Bool) : Prop where
  noDigit : ∀ c, blank space c = true → digit c = 16
  dot : blank space (ascii '.') = false
  mark : ∀ c, c = ascii 'x' ∨ c = ascii 'X' → blank space c = false

theorem blanks_isspace : Blanks isspace where
  noDigit := by decide +kernel
  dot := rfl
  mark := by decide +kernel

theorem blanks_myIsspace : Blanks myIsspace where
  noDigit := by decide +kernel
  dot := rfl
  mark := by decide +kernel

variable {o : ByteOrder} {s l rest field : Name} {base n : ℕ} {a : U32} {space : Byte → Bool}

/-! ## The loop over the digits -/

theorem isdigit_eq : ∀ c : Byte, (isascii c && isdigit c) = decide (digit c < 10) := by
  decide +kernel

theorem isxdigit_eq : ∀ c : Byte, (isascii c && isxdigit c) = decide (digit c < 16) := by
  decide +kernel

theorem digit_decimal : ∀ c : Byte, digit c < 10 →
    c.setWidth 32 - (ascii '0').setWidth 32 = BitVec.ofNat 32 (digit c) := by decide +kernel

theorem digit_hex : ∀ c : Byte, ¬digit c < 10 → digit c < 16 →
    c.setWidth 32 + 10 - (if islower c then ascii 'a' else ascii 'A').setWidth 32 =
    BitVec.ofNat 32 (digit c) := by
  decide +kernel

theorem radix_base (l : Name) : (radix l).1 = 8 ∨ (radix l).1 = 10 ∨ (radix l).1 = 16 := by
  fun_cases radix l with
  | case1 => exact .inr (.inl rfl)
  | case2 => exact .inl rfl
  | case3 => exact .inr (.inr rfl)
  | case4 => exact .inl rfl
  | case5 => exact .inr (.inl rfl)

theorem radix_suffix (l : Name) : (radix l).2 <:+ l := by
  fun_cases radix l with
  | case1 => exact List.suffix_rfl
  | case2 => exact List.nil_suffix
  | case3 x digits => exact (List.suffix_cons x digits).trans (List.suffix_cons _ _)
  | case4 x digits => exact List.suffix_cons _ _
  | case5 => exact List.suffix_rfl

/-- A digit is added to the value, which wraps. -/
theorem scanDigits_digit {c : Byte} (hbase : base = 8 ∨ base = 10 ∨ base = 16)
    (hc : digit c < widest base) (n : ℕ) :
    scanDigits base (c :: l) (BitVec.ofNat 32 n) =
    scanDigits base l (BitVec.ofNat 32 (n * base + digit c)) := by
  by_cases h10 : digit c < 10
  · rw [scanDigits, isdigit_eq, if_pos (decide_eq_true h10), digit_decimal c h10,
      ← BitVec.ofNat_mul, ← BitVec.ofNat_add]
  · have h16 : base = 16 ∧ digit c < 16 := by
      rcases hbase with rfl | rfl | rfl
      · exact absurd hc h10
      · exact absurd hc h10
      · exact ⟨rfl, hc⟩
    obtain ⟨rfl, h16⟩ := h16
    have hshift : BitVec.ofNat 32 n <<< 4 = BitVec.ofNat 32 (n * 16) := by
      rw [BitVec.shiftLeft_eq_mul_twoPow, BitVec.ofNat_mul]
      rfl
    rw [scanDigits, isdigit_eq, if_neg (by simpa using h10), beq_self_eq_true,
      Bool.true_and, isxdigit_eq, if_pos (decide_eq_true h16), digit_hex c h10 h16, hshift,
      ← BitVec.ofNat_add]

/-- The loop stops at any other character. -/
theorem scanDigits_stop {c : Byte} (hbase : base = 8 ∨ base = 10 ∨ base = 16)
    (hc : ¬digit c < widest base) (val : U32) :
    scanDigits base (c :: l) val = (val, c :: l) := by
  have h10 : ¬digit c < 10 := fun h => hc (h.trans_le (le_max_right _ _))
  rw [scanDigits, isdigit_eq, if_neg (by simpa using h10), Bool.and_assoc, isxdigit_eq]
  rcases hbase with rfl | rfl | rfl
  · exact if_neg Bool.false_ne_true
  · exact if_neg Bool.false_ne_true
  · have h16 : decide (digit c < 16) = false := decide_eq_false hc
    rw [h16]
    exact if_neg Bool.false_ne_true

theorem scanDigits_append (hbase : base = 8 ∨ base = 10 ∨ base = 16)
    (hl : ∀ c ∈ l, digit c < widest base) (hrest : ∀ c ∈ rest.head?, ¬digit c < widest base)
    (n : ℕ) :
    scanDigits base (l ++ rest) (BitVec.ofNat 32 n) =
    (BitVec.ofNat 32 (valueFrom base n l), rest) := by
  induction l generalizing n with
  | nil =>
    cases rest with
    | nil => rfl
    | cons c rest => exact scanDigits_stop hbase (hrest c rfl) _
  | cons c l ih =>
    obtain ⟨hc, hl⟩ := List.forall_mem_cons.1 hl
    rw [List.cons_append, scanDigits_digit hbase hc, ih hl]
    rfl

/-- Where something else than digits follows, the loop stops in front of it. -/
theorem scanDigits_blocked (hbase : base = 8 ∨ base = 10 ∨ base = 16)
    (hl : ¬∀ c ∈ l, digit c < widest base) (n : ℕ) :
    ∃ val, ∃ c ∈ l, ∃ t, scanDigits base (l ++ rest) (BitVec.ofNat 32 n) = (val, c :: t) := by
  induction l generalizing n with
  | nil => exact absurd (List.forall_mem_nil _) hl
  | cons c l ih =>
    by_cases hc : digit c < widest base
    · obtain ⟨val, x, hx, t, hscan⟩ :=
        ih (fun h => hl (List.forall_mem_cons.2 ⟨hc, h⟩)) (n * base + digit c)
      refine ⟨val, x, List.mem_cons_of_mem c hx, t, ?_⟩
      rw [List.cons_append, scanDigits_digit hbase hc, hscan]
    · exact ⟨_, c, List.mem_cons_self, l ++ rest, scanDigits_stop hbase hc _⟩

/-! ## The fields of a string -/

/-- A field ends at a dot or at white space. -/
def ends (space : Byte → Bool) (c : Byte) : Bool := c == ascii '.' || blank space c

/-- A string is a field and what follows it. -/
structure Splits (space : Byte → Bool) (s field rest : Name) : Prop where
  eq : s = field ++ rest
  within : ∀ c ∈ field, ends space c = false
  behind : trailing space rest = true ∨ ∃ t, rest = ascii '.' :: t

theorem Blanks.digit_of_ends (hspace : Blanks space) (c : Byte) (h : ends space c = true) :
    digit c = 16 := by
  rcases Bool.or_eq_true_iff.1 h with hdot | hblank
  · rw [beq_iff_eq.1 hdot]
    rfl
  · exact hspace.noDigit c hblank

/-- Zero is no end, nor is the mark of the hexadecimal numerals. -/
theorem Blanks.ends_zero (hspace : Blanks space) : ends space (ascii '0') = false :=
  Bool.eq_false_of_not_eq_true fun h =>
    absurd (hspace.digit_of_ends (ascii '0') h) (by decide)

theorem Blanks.ends_mark (hspace : Blanks space) (c : Byte)
    (hc : c = ascii 'x' ∨ c = ascii 'X') : ends space c = false := by
  refine Bool.or_eq_false_iff.2 ⟨?_, hspace.mark c hc⟩
  rcases hc with rfl | rfl <;> rfl

theorem Splits.ends_head (h : Splits space s field rest) :
    ∀ c ∈ rest.head?, ends space c = true := by
  intro c hc
  obtain ⟨t, rfl⟩ := List.head?_eq_some_iff.1 hc
  rcases h.behind with hspace | ⟨t', hdot⟩
  · exact Bool.or_eq_true_iff.2 (.inr hspace)
  · rw [(List.cons.inj hdot).1]
    rfl

theorem exists_splits (s : Name) : ∃ field rest, Splits space s field rest := by
  induction s with
  | nil => exact ⟨[], [], rfl, List.forall_mem_nil _, .inl rfl⟩
  | cons c s ih =>
    obtain ⟨field, rest, rfl, hfield, hrest⟩ := ih
    cases hc : ends space c with
    | false => exact ⟨c :: field, rest, rfl, List.forall_mem_cons.2 ⟨hc, hfield⟩, hrest⟩
    | true =>
      refine ⟨[], c :: (field ++ rest), rfl, List.forall_mem_nil _, ?_⟩
      rcases Bool.or_eq_true_iff.1 hc with hdot | hspace
      · exact .inr ⟨_, by rw [beq_iff_eq.1 hdot]⟩
      · exact .inl hspace

theorem Splits.notSpace (h : Splits space s field rest) : ∀ c ∈ field, (!blank space c) =
    true := fun c hc => by
  rw [(Bool.or_eq_false_iff.1 (h.within c hc)).2]
  rfl

theorem Splits.notDot (h : Splits space s field rest) : ascii '.' ∉ field := fun hdot =>
  Bool.noConfusion (h.within _ hdot : ends space (ascii '.') = false)

theorem fields_eq_single (h : Splits space s field rest) (hrest : trailing space rest = true) :
    fields space s = [field] := by
  have hstop : rest.takeWhile (fun c => !blank space c) = [] := by
    cases rest with
    | nil => rfl
    | cons c rest => exact List.takeWhile_cons_of_neg (by simpa [trailing] using hrest)
  rw [fields, h.eq, List.takeWhile_append_of_pos h.notSpace, hstop, List.append_nil,
    List.splitOn_eq_singleton h.notDot]

theorem fields_eq_cons (hspace : Blanks space) (h : Splits space s field (ascii '.' :: rest)) :
    fields space s = field :: fields space rest := by
  have hdot : (!blank space (ascii '.')) = true := by
    rw [hspace.dot]
    rfl
  rw [fields, h.eq, List.takeWhile_append_of_pos h.notSpace,
    List.takeWhile_cons_of_pos (p := fun c => !blank space c) hdot,
    List.splitOn_append_cons_self_of_not_mem h.notDot, fields]

/-- What follows a field does not change its base. -/
theorem radix_append (hspace : Blanks space) (h : Splits space s field rest) :
    radix s = ((radix field).1, (radix field).2 ++ rest) := by
  have hhead := h.ends_head
  rw [h.eq]
  fun_cases radix field with
  | case1 =>
    cases rest with
    | nil => rfl
    | cons c rest =>
      have hc : c ≠ ascii '0' := by
        rintro rfl
        exact Bool.noConfusion (hspace.ends_zero.symm.trans (hhead _ rfl))
      exact if_neg hc
  | case2 =>
    cases rest with
    | nil => rfl
    | cons c rest =>
      have hc : ¬(c = ascii 'x' ∨ c = ascii 'X') := fun hc =>
        Bool.noConfusion ((hspace.ends_mark c hc).symm.trans (hhead c rfl))
      exact if_neg hc
  | case3 x digits hmark => exact if_pos hmark
  | case4 x digits hmark => exact if_neg hmark
  | case5 c cp hc => exact if_neg hc

/-- What the scanner makes of a field. -/
def wrapped (field : Name) : U32 := BitVec.ofNat 32 (numeral field)

theorem scanNumber_of_scans (hspace : Blanks space) (h : Splits space s field rest)
    (hscans : Scans field) :
    scanNumber s = (wrapped field, rest) := by
  have hrest : ∀ c ∈ rest.head?, ¬digit c < widest (radix field).1 := by
    intro c hc
    rw [hspace.digit_of_ends c (h.ends_head c hc)]
    rcases radix_base field with hb | hb | hb <;> rw [hb] <;> decide
  rw [scanNumber, radix_append hspace h]
  exact scanDigits_append (radix_base field) hscans hrest 0

theorem scanNumber_of_not_scans (hspace : Blanks space) (h : Splits space s field rest)
    (hscans : ¬Scans field) :
    ∃ val c t, scanNumber s = (val, c :: t) ∧ ends space c = false := by
  rw [scanNumber, radix_append hspace h]
  obtain ⟨val, c, hc, t, hscan⟩ := scanDigits_blocked (radix_base field) hscans 0
  exact ⟨val, c, t, hscan, h.within c ((radix_suffix field).subset hc)⟩

/-! ## The parts -/

theorem scanParts_last {val : U32} (h : scanNumber s = (val, rest))
    (hrest : ∀ c ∈ rest.head?, c ≠ ascii '.') (room : ℕ) :
    scanParts room s = some ([], val, rest) := by
  cases rest with
  | nil => rw [scanParts, h]
  | cons c rest =>
    rw [scanParts, h]
    exact if_neg (hrest c rfl)

theorem scanParts_zero {val : U32} (h : scanNumber s = (val, ascii '.' :: rest)) :
    scanParts 0 s = none := by
  rw [scanParts, h]
  rfl

theorem scanParts_succ {val : U32} (h : scanNumber s = (val, ascii '.' :: rest)) (room : ℕ) :
    scanParts (room + 1) s =
      if 0xff < val then none else (scanParts room rest).map fun (parts, last) =>
        (val :: parts, last) := by
  rw [scanParts, h]
  rfl

theorem fields_ne_nil (space : Byte → Bool) (s : Name) : fields space s ≠ [] :=
  List.splitOn_ne_nil _ _

/-- The loop ends with these parts and this last value, and nothing but white space follows. -/
def Ends (space : Byte → Bool) (room : ℕ) (s : Name) (parts : List U32) (val : U32) : Prop :=
  ∃ cp, scanParts room s = some (parts, val, cp) ∧ trailing space cp = true

/-- Every field scans as a number, there is room for the parts, and each of them is an octet. -/
structure Reads (space : Byte → Bool) (room : ℕ) (s : Name) (parts : List U32) (val : U32) :
    Prop where
  scans : ∀ field ∈ fields space s, Scans field
  values : (fields space s).map wrapped = parts ++ [val]
  room_le : parts.length ≤ room
  octets : ∀ part ∈ parts, part.toNat ≤ 255

variable {room : ℕ} {parts : List U32} {val : U32}

theorem Splits.mem_fields (hspace : Blanks space) (h : Splits space s field rest) :
    field ∈ fields space s := by
  rcases h.behind with hrest | ⟨t, rfl⟩
  · rw [fields_eq_single h hrest]
    exact List.mem_singleton_self field
  · rw [fields_eq_cons hspace h]
    exact List.mem_cons_self

theorem not_ends_of_not_scans (hspace : Blanks space) (h : Splits space s field rest)
    (hscans : ¬Scans field) :
    ¬Ends space room s parts val := by
  rintro ⟨cp, hcp, htrail⟩
  obtain ⟨v, c, t, hnumber, hc⟩ := scanNumber_of_not_scans hspace h hscans
  obtain ⟨hdot, hspace⟩ := Bool.or_eq_false_iff.1 hc
  have hne : ∀ x ∈ (c :: t).head?, x ≠ ascii '.' := by
    rintro x ⟨⟩
    exact beq_eq_false_iff_ne.1 hdot
  rw [scanParts_last hnumber hne] at hcp
  obtain ⟨-, rfl⟩ := Prod.mk.inj (Prod.mk.inj (Option.some.inj hcp)).2
  exact Bool.noConfusion (hspace.symm.trans htrail)

theorem ends_iff_of_last (hspace : Blanks space) (h : Splits space s field rest)
    (hrest : trailing space rest = true)
    (hscans : Scans field) :
    Ends space room s parts val ↔ Reads space room s parts val := by
  have hne : ∀ c ∈ rest.head?, c ≠ ascii '.' := by
    rintro c hc rfl
    obtain ⟨t, rfl⟩ := List.head?_eq_some_iff.1 hc
    exact Bool.noConfusion (hspace.dot.symm.trans hrest)
  have hscan := scanParts_last (scanNumber_of_scans hspace h hscans) hne room
  have hfields := fields_eq_single h hrest
  constructor
  · rintro ⟨cp, hcp, -⟩
    obtain ⟨rfl, hval⟩ := Prod.mk.inj (Option.some.inj (hscan.symm.trans hcp))
    refine ⟨?_, ?_, Nat.zero_le room, List.forall_mem_nil _⟩
    · rw [hfields]
      exact List.forall_mem_singleton.2 hscans
    · rw [hfields, ← (Prod.mk.inj hval).1]
      rfl
  · intro hreads
    have hvalues := hreads.values
    rw [hfields] at hvalues
    cases parts with
    | nil => exact ⟨rest, by rw [hscan, (List.cons.inj hvalues).1], hrest⟩
    | cons part parts =>
      exact absurd (List.cons.inj hvalues).2.symm
        (List.append_ne_nil_of_right_ne_nil _ (List.cons_ne_nil _ _))

/-- The part in front of a dot takes a place, if there is one, when it is an octet. -/
theorem ends_succ_iff (hspace : Blanks space) (h : Splits space s field (ascii '.' :: rest))
    (hscans : Scans field) :
    Ends space (room + 1) s parts val ↔
      (wrapped field).toNat ≤ 255 ∧ ∃ parts', parts = wrapped field :: parts' ∧
      Ends space room rest parts' val := by
  have hscan := scanParts_succ (scanNumber_of_scans hspace h hscans) room
  have hlarge : 0xff < wrapped field ↔ 255 < (wrapped field).toNat := BitVec.lt_def
  by_cases hv : (wrapped field).toNat ≤ 255
  · rw [if_neg (fun hlt => absurd (hlarge.1 hlt) (Nat.not_lt.2 hv))] at hscan
    simp only [Ends, hscan, Option.map_eq_some_iff, hv, true_and]
    constructor
    · rintro ⟨cp, ⟨⟨parts', last⟩, hrest, heq⟩, htrail⟩
      obtain ⟨rfl, rfl⟩ := Prod.mk.inj heq
      exact ⟨parts', rfl, cp, hrest, htrail⟩
    · rintro ⟨parts', rfl, cp, hrest, htrail⟩
      exact ⟨cp, ⟨(parts', val, cp), hrest, rfl⟩, htrail⟩
  · rw [if_pos (hlarge.2 (Nat.lt_of_not_le hv))] at hscan
    simp only [Ends, hscan, hv, false_and, iff_false]
    rintro ⟨cp, hcp, -⟩
    cases hcp

theorem reads_succ_iff (hspace : Blanks space) (h : Splits space s field (ascii '.' :: rest))
    (hscans : Scans field) :
    Reads space (room + 1) s parts val ↔
      (wrapped field).toNat ≤ 255 ∧ ∃ parts', parts = wrapped field :: parts' ∧
      Reads space room rest parts' val := by
  have hfields := fields_eq_cons hspace h
  constructor
  · intro hreads
    obtain ⟨hall, hvalues, hroom, hoctets⟩ := hreads
    rw [hfields] at hall hvalues
    cases parts with
    | nil =>
      exact absurd (List.map_eq_nil_iff.1 (List.cons.inj hvalues).2) (fields_ne_nil space rest)
    | cons part parts' =>
      obtain ⟨hpart, htail⟩ := List.cons.inj hvalues
      obtain ⟨hoctet, hoctets⟩ := List.forall_mem_cons.1 hoctets
      refine ⟨hpart ▸ hoctet, parts', by rw [hpart], ?_⟩
      exact ⟨(List.forall_mem_cons.1 hall).2, htail, Nat.le_of_succ_le_succ hroom, hoctets⟩
  · rintro ⟨hoctet, parts', rfl, hreads⟩
    refine ⟨?_, ?_, Nat.succ_le_succ hreads.room_le, List.forall_mem_cons.2 ⟨hoctet, hreads.octets⟩⟩
    · rw [hfields]
      exact List.forall_mem_cons.2 ⟨hscans, hreads.scans⟩
    · rw [hfields, List.map_cons, hreads.values]
      rfl

/-- It is enough to look at a first field in front of a dot. -/
theorem ends_iff_of_dot (hspace : Blanks space)
    (hdot : ∀ field rest, Splits space s field (ascii '.' :: rest) → Scans field →
    (Ends space room s parts val ↔ Reads space room s parts val)) : Ends space room s parts val ↔
    Reads space room s parts val := by
  obtain ⟨field, rest, h⟩ := exists_splits s
  by_cases hscans : Scans field
  · rcases h.behind with hrest | ⟨rest, rfl⟩
    · exact ends_iff_of_last hspace h hrest hscans
    · exact hdot field rest h hscans
  · exact iff_of_false (not_ends_of_not_scans hspace h hscans) fun hreads =>
      hscans (hreads.scans field (h.mem_fields hspace))

/-- The scanner comes to its end exactly on the strings that it reads. -/
theorem ends_iff (hspace : Blanks space) (room : ℕ) (s : Name) (parts : List U32) (val : U32) :
    Ends space room s parts val ↔ Reads space room s parts val := by
  induction room generalizing s parts with
  | zero =>
    refine ends_iff_of_dot hspace fun field rest h hscans => iff_of_false ?_ fun hreads => ?_
    · rintro ⟨cp, hcp, -⟩
      rw [scanParts_zero (scanNumber_of_scans hspace h hscans)] at hcp
      cases hcp
    · have hvalues := hreads.values
      rw [List.length_eq_zero_iff.1 (Nat.le_zero.1 hreads.room_le),
        fields_eq_cons hspace h] at hvalues
      exact fields_ne_nil space rest (List.map_eq_nil_iff.1 (List.cons.inj hvalues).2)
  | succ room ih =>
    refine ends_iff_of_dot hspace fun field rest h hscans => ?_
    rw [ends_succ_iff hspace h hscans, reads_succ_iff hspace h hscans]
    simp only [ih]

/-! ## The address -/

theorem checked_eq {p q : Prop} [Decidable p] [Decidable q] {x : U32} (hpq : ¬p ↔ q)
    (hx : q → x = BitVec.ofNat 32 n) :
    (if p then none else some x) = (if q then some n else none).map (BitVec.ofNat 32) := by
  by_cases hq : q
  · rw [if_neg (hpq.2 hq), if_pos hq, hx hq, Option.map_some]
  · rw [if_pos (Decidable.not_not.1 fun hp => hq (hpq.1 hp)), if_neg hq, Option.map_none]

/-- The word is made when the last value is in its range, and it is the one that the values
denote. -/
theorem concoct_eq (hroom : parts.length ≤ 3) (hoctets : ∀ part ∈ parts, part.toNat ≤ 255) :
    concoct parts val = (denoted (parts.map BitVec.toNat ++ [val.toNat])).map
      (BitVec.ofNat 32) := by
  match parts with
  | [] =>
    show some val = Option.map _ (if val.toNat < 2 ^ 32 then some val.toNat else none)
    rw [if_pos val.isLt, Option.map_some, BitVec.ofNat_toNat, BitVec.setWidth_eq]
  | [a] =>
    have ha : a.toNat ≤ 255 := hoctets a List.mem_cons_self
    refine checked_eq ?_ fun ⟨_, hval⟩ => ?_
    · have hlt : 0xffffff < val ↔ 0xffffff < val.toNat := BitVec.lt_def
      rw [hlt]
      omega
    · have hword : (a <<< 24 ||| val).toNat = a.toNat * 2 ^ 24 + val.toNat :=
        toNat_shiftLeft_or hval (by omega)
      rw [BitVec.or_comm, ← hword, BitVec.ofNat_toNat, BitVec.setWidth_eq]
  | [a, b] =>
    obtain ⟨ha, hb⟩ : a.toNat ≤ 255 ∧ b.toNat ≤ 255 := by simpa using hoctets
    refine checked_eq ?_ fun ⟨_, _, hval⟩ => ?_
    · have hlt : 0xffff < val ↔ 0xffff < val.toNat := BitVec.lt_def
      rw [hlt]
      omega
    · have hlow : (b <<< 16 ||| val).toNat = b.toNat * 2 ^ 16 + val.toNat :=
        toNat_shiftLeft_or hval (by omega)
      have hword : (a <<< 24 ||| (b <<< 16 ||| val)).toNat =
          a.toNat * 2 ^ 24 + (b <<< 16 ||| val).toNat :=
        toNat_shiftLeft_or (by omega) (by omega)
      rw [BitVec.or_comm, BitVec.or_assoc, Nat.add_assoc, ← hlow, ← hword, BitVec.ofNat_toNat,
        BitVec.setWidth_eq]
  | [a, b, c] =>
    obtain ⟨ha, hb, hc⟩ : a.toNat ≤ 255 ∧ b.toNat ≤ 255 ∧ c.toNat ≤ 255 := by simpa using hoctets
    refine checked_eq ?_ fun ⟨_, _, _, hval⟩ => ?_
    · have hlt : 0xff < val ↔ 0xff < val.toNat := BitVec.lt_def
      rw [hlt]
      omega
    · have hlast : (c <<< 8 ||| val).toNat = c.toNat * 2 ^ 8 + val.toNat :=
        toNat_shiftLeft_or (by omega) (by omega)
      have hlow : (b <<< 16 ||| (c <<< 8 ||| val)).toNat =
          b.toNat * 2 ^ 16 + (c <<< 8 ||| val).toNat :=
        toNat_shiftLeft_or (by omega) (by omega)
      have hword : (a <<< 24 ||| (b <<< 16 ||| (c <<< 8 ||| val))).toNat =
          a.toNat * 2 ^ 24 + (b <<< 16 ||| (c <<< 8 ||| val)).toNat :=
            toNat_shiftLeft_or (by omega) (by omega)
      rw [BitVec.or_comm, BitVec.or_assoc, BitVec.or_assoc, Nat.add_assoc, Nat.add_assoc, ← hlast,
        ← hlow, ← hword, BitVec.ofNat_toNat, BitVec.setWidth_eq]

/-- What the ranges say about numbers that denote an address. -/
structure Ranged (values : List ℕ) (n : ℕ) : Prop where
  parts : ∃ front last, values = front ++ [last] ∧ front.length ≤ 3 ∧ ∀ part ∈ front, part ≤ 255
  lt : ∀ value ∈ values, value < 2 ^ 32
  word : n < 2 ^ 32

theorem ranged_of_denoted {values : List ℕ} (h : denoted values = some n) : Ranged values n := by
  match values, h with
  | [_], h =>
    obtain ⟨ha, ⟨⟩⟩ := Option.ite_none_right_eq_some.1 h
    exact ⟨⟨[], n, rfl, by simp, List.forall_mem_nil _⟩, List.forall_mem_singleton.2 ha, ha⟩
  | [a, b], h =>
    obtain ⟨hab, ⟨⟩⟩ := Option.ite_none_right_eq_some.1 h
    refine ⟨⟨[a], b, rfl, by simp, List.forall_mem_singleton.2 hab.1⟩, ?_, by omega⟩
    simp only [List.forall_mem_cons]
    exact ⟨by omega, by omega, List.forall_mem_nil _⟩
  | [a, b, c], h =>
    obtain ⟨habc, ⟨⟩⟩ := Option.ite_none_right_eq_some.1 h
    refine ⟨⟨[a, b], c, rfl, by simp, by simpa using ⟨habc.1, habc.2.1⟩⟩, ?_, by omega⟩
    simp only [List.forall_mem_cons]
    exact ⟨by omega, by omega, by omega, List.forall_mem_nil _⟩
  | [a, b, c, d], h =>
    obtain ⟨habcd, ⟨⟩⟩ := Option.ite_none_right_eq_some.1 h
    refine ⟨⟨[a, b, c], d, rfl, by simp, by simpa using ⟨habcd.1, habcd.2.1, habcd.2.2.1⟩⟩,
      ?_, by omega⟩
    simp only [List.forall_mem_cons]
    exact ⟨by omega, by omega, by omega, by omega, List.forall_mem_nil _⟩

theorem toNat_wrapped (field : Name) : (wrapped field).toNat = numeral field % 2 ^ 32 :=
  BitVec.toNat_ofNat _ _

theorem scanAddress_eq_some_iff (o : ByteOrder) (s : Name) (addr : U32) :
    scanAddress space o s = some addr ↔ ∃ parts val, Ends space 3 s parts val ∧
    (concoct parts val).map (hton o) = some addr := by
  rw [scanAddress, Option.bind_eq_bind, Option.bind_eq_some_iff]
  constructor
  · rintro ⟨⟨parts, val, cp⟩, hscan, haddr⟩
    cases htrail : trailing space cp with
    | true => exact ⟨parts, val, ⟨cp, hscan, htrail⟩, by simpa [htrail] using haddr⟩
    | false => simp [htrail] at haddr
  · rintro ⟨parts, val, ⟨cp, hscan, htrail⟩, haddr⟩
    refine ⟨(parts, val, cp), hscan, ?_⟩
    show (if trailing space cp = true then (concoct parts val).map (hton o) else none) = some addr
    rw [if_pos htrail, haddr]

/-- An address is accepted exactly if every field scans as a number and the
numbers, as 32 bits keep them, are in range. -/
theorem scanAddress_iff (hspace : Blanks space) (o : ByteOrder) (s : Name) (addr : U32) :
    scanAddress space o s = some addr ↔ (∀ field ∈ fields space s, Scans field) ∧
      ∃ n, denoted ((fields space s).map fun field => numeral field % 2 ^ 32) = some n ∧
      addr = hton o (BitVec.ofNat 32 n) := by
  have hmap : (fields space s).map (fun field => numeral field % 2 ^ 32) =
      ((fields space s).map wrapped).map BitVec.toNat := by
    rw [List.map_map]
    exact List.map_congr_left fun field _ => (toNat_wrapped field).symm
  rw [scanAddress_eq_some_iff]
  constructor
  · rintro ⟨parts, val, hends, haddr⟩
    obtain ⟨hscans, hvalues, hroom, hoctets⟩ := (ends_iff hspace 3 s parts val).1 hends
    rw [concoct_eq hroom hoctets, Option.map_map, Option.map_eq_some_iff] at haddr
    obtain ⟨n, hn, rfl⟩ := haddr
    refine ⟨hscans, n, ?_, rfl⟩
    rw [hmap, hvalues, List.map_append]
    exact hn
  · rintro ⟨hscans, n, hn, rfl⟩
    rw [hmap] at hn
    obtain ⟨front, last, hfront, hroom, hoctets⟩ := (ranged_of_denoted hn).parts
    obtain ⟨parts, vals, hsplit, rfl, hlast⟩ := List.map_eq_append_iff.1 hfront
    obtain ⟨val, rfl, rfl⟩ := List.map_eq_singleton_iff.1 hlast
    rw [List.length_map] at hroom
    have hparts : ∀ part ∈ parts, part.toNat ≤ 255 := fun part hpart =>
      hoctets _ (List.mem_map_of_mem hpart)
    refine ⟨parts, val, (ends_iff hspace 3 s parts val).2 ⟨hscans, hsplit, hroom, hparts⟩, ?_⟩
    rw [hfront] at hn
    rw [concoct_eq hroom hparts]
    show Option.map (hton o) (Option.map _ (denoted (parts.map BitVec.toNat ++ [val.toNat]))) = _
    rw [hn]
    rfl

/-! ## The numerals of C -/

theorem radix_octal (hl : ∀ c ∈ l, digit c < 8) : radix (ascii '0' :: l) = (8, l) := by
  cases l with
  | nil => rfl
  | cons x digits =>
    have hx : ¬(x = ascii 'x' ∨ x = ascii 'X') := by
      rintro (rfl | rfl)
      · exact absurd (hl _ List.mem_cons_self) (by decide)
      · exact absurd (hl _ List.mem_cons_self) (by decide)
    exact if_neg hx

/-- The digits of a C numeral are those of the base that it announces, and there is one. -/
theorem CNumeral.digits (h : CNumeral field n) :
    n = numeral field ∧ (∀ c ∈ (radix field).2, digit c < (radix field).1) ∧
      ((radix field).2 = [] → (radix field).1 = 8) := by
  cases h with
  | @decimal c l hc hl =>
    have hradix : radix (c :: l) = (10, c :: l) := if_neg hc
    rw [numeral, hradix]
    exact ⟨rfl, hl, fun hnil => absurd hnil (List.cons_ne_nil c l)⟩
  | octal hl =>
    rw [numeral, radix_octal hl]
    exact ⟨rfl, hl, fun _ => rfl⟩
  | @hex x l hx hne hl =>
    have hradix : radix (ascii '0' :: x :: l) = (16, l) := if_pos hx
    rw [numeral, hradix]
    exact ⟨rfl, hl, fun hnil => absurd hnil hne⟩

/-- A C numeral that fits into 32 bits is not misread. -/
theorem CNumeral.not_misread (h : CNumeral field n) (hn : n < 2 ^ 32) : ¬Misread field := by
  obtain ⟨rfl, hdigits, hempty⟩ := h.digits
  rintro (⟨hnil, hbase⟩ | ⟨c, hc, hdigit⟩ | hlarge)
  · exact hbase (hempty hnil)
  · exact absurd (hdigits c hc) (Nat.not_lt.2 hdigit)
  · exact absurd hn (Nat.not_lt.2 hlarge)

/-- A field that is not misread is a C numeral. -/
theorem cNumeral_of_not_misread (h : ¬Misread field) : CNumeral field (numeral field) ∧
    numeral field < 2 ^ 32 := by
  have hempty : (radix field).2 = [] → (radix field).1 = 8 := fun hnil => by
    by_contra hbase
    exact h (.inl ⟨hnil, hbase⟩)
  have hdigits : ∀ c ∈ (radix field).2, digit c < (radix field).1 := fun c hc => by
    by_contra hdigit
    exact h (.inr (.inl ⟨c, hc, Nat.le_of_not_lt hdigit⟩))
  refine ⟨?_, Nat.lt_of_not_le fun hlarge => h (.inr (.inr hlarge))⟩
  unfold numeral
  revert hempty hdigits
  fun_cases radix field with
  | case1 => exact fun hempty => absurd (hempty rfl) (by decide)
  | case2 => exact fun _ hdigits => .octal hdigits
  | case3 x digits hx =>
      exact fun hempty hdigits =>
        .hex hx (fun hnil => absurd (show 16 = 8 from hempty hnil) (by decide)) hdigits
  | case4 => exact fun _ hdigits => .octal hdigits
  | case5 c cp hc => exact fun _ hdigits => .decimal hc hdigits

/-! ## The text of an address -/

theorem digit_digitChar : ∀ n < 10, digit (ascii n.digitChar) = n := by decide

theorem Blanks.ends_of_digit (hspace : Blanks space) (c : Byte) (hc : digit c < 10) :
    ends space c = false :=
  Bool.eq_false_of_not_eq_true fun h => absurd (hspace.digit_of_ends c h) (by omega)

theorem decimalText_of_lt (h : n < 10) : decimalText n = [ascii n.digitChar] := by
  rw [decimalText, Nat.toDigits_of_lt_base h, List.map_singleton]

theorem decimalText_of_le (h : 10 ≤ n) : decimalText n = decimalText (n / 10) ++
    [ascii (n % 10).digitChar] := by
  rw [decimalText, Nat.toDigits_of_base_le (by decide) h, List.map_append,
    List.map_singleton, decimalText]

/-- What is written for a number: decimal digits that stand for it. -/
theorem decimalText_spec (n : ℕ) : (∀ c ∈ decimalText n, digit c < 10) ∧
    valueFrom 10 0 (decimalText n) = n := by
  induction n using Nat.strongRecOn with
  | ind n ih =>
    by_cases h : n < 10
    · rw [decimalText_of_lt h]
      have hdigit := digit_digitChar n h
      refine ⟨List.forall_mem_singleton.2 (hdigit.trans_lt h), ?_⟩
      show 0 * 10 + digit (ascii n.digitChar) = n
      omega
    · rw [decimalText_of_le (Nat.le_of_not_lt h)]
      have hlast := digit_digitChar (n % 10) (Nat.mod_lt n (by decide))
      obtain ⟨hdigits, hvalue⟩ := ih (n / 10) (by omega)
      constructor
      · rw [List.forall_mem_append, List.forall_mem_singleton]
        exact ⟨hdigits, by omega⟩
      · rw [valueFrom, List.foldl_append]
        show valueFrom 10 0 (decimalText (n / 10)) * 10 + digit (ascii (n % 10).digitChar) = n
        omega

/-- No zero stands in front of a number. -/
theorem decimalText_head (hn : n ≠ 0) : ∃ c l, decimalText n = c :: l ∧ c ≠ ascii '0' := by
  induction n using Nat.strongRecOn with
  | ind n ih =>
    by_cases h : n < 10
    · refine ⟨_, _, decimalText_of_lt h, fun hzero => hn ?_⟩
      rw [← digit_digitChar n h, hzero]
      rfl
    · obtain ⟨c, l, htext, hc⟩ := ih (n / 10) (by omega) (by omega)
      refine ⟨c, l ++ [ascii (n % 10).digitChar], ?_, hc⟩
      rw [decimalText_of_le (Nat.le_of_not_lt h), htext, List.cons_append]

theorem radix_decimalText (hn : n ≠ 0) : radix (decimalText n) = (10, decimalText n) := by
  obtain ⟨c, l, htext, hc⟩ := decimalText_head hn
  rw [htext]
  exact if_neg hc

/-- Zero is written as an octal numeral without digits, any other number as a decimal one. -/
theorem scans_decimalText (n : ℕ) : Scans (decimalText n) := by
  by_cases hn : n = 0
  · rw [hn]
    decide
  · rw [Scans, radix_decimalText hn]
    exact (decimalText_spec n).1

theorem numeral_decimalText (n : ℕ) : numeral (decimalText n) = n := by
  by_cases hn : n = 0
  · rw [hn]
    rfl
  · rw [numeral, radix_decimalText hn]
    exact (decimalText_spec n).2

theorem denoted_octets (w x y z : Byte) :
    denoted [w.toNat, x.toNat, y.toNat, z.toNat] = some (be32 w x y z).toNat := by
  have hw := w.isLt
  have hx := x.isLt
  have hy := y.isLt
  have hz := z.isLt
  rw [toNat_be32, denoted, if_pos ⟨by omega, by omega, by omega, by omega⟩]
  exact congrArg some (by omega)

theorem splits_text (hspace : Blanks space) (n : ℕ)
    (hrest : trailing space rest = true ∨ ∃ t, rest = ascii '.' :: t) :
    Splits space (decimalText n ++ rest) (decimalText n) rest :=
  ⟨rfl, fun c hc => hspace.ends_of_digit c ((decimalText_spec n).1 c hc), hrest⟩

theorem fields_texts (hspace : Blanks space) (n : ℕ) (values : List ℕ) :
    fields space ([ascii '.'].intercalate ((n :: values).map decimalText)) =
    (n :: values).map decimalText := by
  induction values generalizing n with
  | nil =>
    have h : fields space (decimalText n ++ []) = [decimalText n] :=
      fields_eq_single (splits_text hspace n (.inl rfl)) rfl
    rw [List.append_nil] at h
    rw [List.map_singleton, List.intercalate_singleton, h]
  | cons m values ih =>
    rw [List.map_cons, List.map_cons, List.intercalate_cons_cons, List.append_assoc,
      List.singleton_append, fields_eq_cons hspace (splits_text hspace n (.inr ⟨_, rfl⟩)),
      ← List.map_cons, ih]

theorem roundTrip (hspace : Blanks space) (o : ByteOrder) (a : U32) :
    RoundTrip (scanAddress space) o a := by
  obtain ⟨w, x, y, z, hoctets⟩ : ∃ w x y z, a = hton o (be32 w x y z) :=
    ⟨_, _, _, _, by rw [be32_octet, hton_hton]⟩
  have hfields :
      fields space (inetNtoa o a) = [w.toNat, x.toNat, y.toNat, z.toNat].map decimalText := by
    rw [inetNtoa, hoctets, store_hton_be32]
    exact fields_texts hspace w.toNat [x.toNat, y.toNat, z.toNat]
  have hvalues : ((fields space (inetNtoa o a)).map fun field => numeral field % 2 ^ 32) =
      [w.toNat, x.toNat, y.toNat, z.toNat] := by
    have hmod : ∀ c : Byte, c.toNat % 2 ^ 32 = c.toNat :=
      fun c => Nat.mod_eq_of_lt (c.isLt.trans (by decide))
    rw [hfields]
    simp only [List.map_cons, List.map_nil, numeral_decimalText, hmod]
  refine (scanAddress_iff hspace o _ a).2 ⟨?_, (be32 w x y z).toNat, ?_, ?_⟩
  · rw [hfields]
    exact List.forall_mem_map.2 fun n _ => scans_decimalText n
  · rw [hvalues, denoted_octets]
  · rw [BitVec.ofNat_toNat, BitVec.setWidth_eq, hoctets]

/-! ## When the scanner is right -/

theorem mod_of_not_misread (h : ¬Misread field) : numeral field % 2 ^ 32 = numeral field :=
  Nat.mod_eq_of_lt (cNumeral_of_not_misread h).2

/-- A field that scans is made of digits and of the mark of its base. -/
theorem Scans.mem (h : Scans field) :
    ∀ c ∈ field, digit c < 16 ∨ c = ascii 'x' ∨ c = ascii 'X' := by
  have hbase : widest (radix field).1 ≤ 16 := by
    rcases radix_base field with hb | hb | hb <;> rw [hb] <;> decide
  have hdigits : ∀ c ∈ (radix field).2, digit c < 16 ∨ c = ascii 'x' ∨ c = ascii 'X' :=
    fun c hc => .inl ((h c hc).trans_le hbase)
  have hzero : digit (ascii '0') < 16 := by decide
  revert hdigits
  fun_cases radix field with
  | case1 => exact fun hdigits => hdigits
  | case2 => exact fun _ => List.forall_mem_singleton.2 (.inl hzero)
  | case3 x digits hx =>
    exact fun hdigits =>
      List.forall_mem_cons.2 ⟨.inl hzero, List.forall_mem_cons.2 ⟨.inr hx, hdigits⟩⟩
  | case4 x digits => exact fun hdigits => List.forall_mem_cons.2 ⟨.inl hzero, hdigits⟩
  | case5 => exact fun hdigits => hdigits

theorem Scans.notBlank (hspace : Blanks space) (h : Scans field) :
    ∀ c ∈ field, blank space c = false := by
  intro c hc
  rcases h.mem c hc with hdigit | hmark
  · exact Bool.eq_false_of_not_eq_true fun hblank =>
      absurd (hspace.noDigit c hblank) (by omega)
  · exact hspace.mark c hmark

theorem exists_mem_splitOn {sep c : Byte} {l : Name} (hsep : c ≠ sep) (hc : c ∈ l) :
    ∃ field ∈ l.splitOn sep, c ∈ field := by
  induction l with
  | nil => exact absurd hc List.not_mem_nil
  | cons x l ih =>
    obtain ⟨first, more, hsplit⟩ := List.exists_cons_of_ne_nil (List.splitOn_ne_nil sep l)
    rw [List.splitOn_cons_eq_if_modifyHead]
    by_cases hx : x = sep
    · rw [if_pos (beq_iff_eq.2 hx)]
      have hmem : c ∈ l := (List.mem_cons.1 hc).resolve_left fun heq => hsep (heq.trans hx)
      obtain ⟨field, hfield, hin⟩ := ih hmem
      exact ⟨field, List.mem_cons_of_mem _ hfield, hin⟩
    · rw [if_neg (mt beq_iff_eq.1 hx), hsplit, List.modifyHead_cons]
      rcases List.mem_cons.1 hc with rfl | hmem
      · exact ⟨c :: first, List.mem_cons_self, List.mem_cons_self⟩
      · obtain ⟨field, hfield, hin⟩ := ih hmem
        rw [hsplit] at hfield
        rcases List.mem_cons.1 hfield with rfl | hfield
        · exact ⟨x :: field, List.mem_cons_self, List.mem_cons_of_mem x hin⟩
        · exact ⟨field, List.mem_cons_of_mem _ hfield, hin⟩

/-- What comes in front of the first white space of one scanner is no white space for another
either, when its fields scan. -/
theorem notBlank_of_scans {other : Byte → Bool} (hother : Blanks other)
    (h : ∀ field ∈ fields space s, Scans field) :
    ∀ c ∈ s.takeWhile (fun c => !blank space c), (!blank other c) = true := by
  intro c hc
  by_cases hdot : c = ascii '.'
  · rw [hdot, hother.dot]
    rfl
  · obtain ⟨field, hfield, hmem⟩ := exists_mem_splitOn hdot hc
    rw [(h field hfield).notBlank hother c hmem]
    rfl

/-- Where what stops the fields is white space, they are the fields up to the first white space. -/
theorem fields_standard (h : ∀ field ∈ fields space s, Scans field)
    (hstop : ∀ c ∈ s.find? (blank space), blank isspace c = true) :
    fields isspace s = fields space s := by
  have hhead : ∀ c ∈ (s.dropWhile fun c => !blank space c).head?, blank isspace c = true := by
    rw [← List.find?_eq_head?_dropWhile_not]
    exact hstop
  have hrest :
      (s.dropWhile fun c => !blank space c).takeWhile (fun c => !blank isspace c) = [] := by
    cases hdrop : s.dropWhile fun c => !blank space c with
    | nil => rfl
    | cons c rest =>
      refine List.takeWhile_cons_of_neg ?_
      rw [hhead c (by rw [hdrop]; rfl)]
      decide
  have htake : s.takeWhile (fun c => !blank isspace c) = s.takeWhile fun c => !blank space c := by
    conv_lhs => rw [← List.takeWhile_append_dropWhile (p := fun c => !blank space c) (l := s)]
    rw [List.takeWhile_append_of_pos (notBlank_of_scans blanks_isspace h), hrest, List.append_nil]
  rw [fields, fields, htake]

/-- Where no field is misread, the numbers that are read are those of the C numerals. -/
theorem sound_of_not_irregular (hspace : Blanks space) (h : ¬Irregular space s) :
    Sound (scanAddress space) o s := by
  intro addr haddr
  obtain ⟨hscans, n, hn, rfl⟩ := (scanAddress_iff hspace o s addr).1 haddr
  have hin := Option.isSome_of_eq_some hn
  have hgood : ∀ field ∈ fields space s, ¬Misread field := fun field hfield hbad =>
    h ⟨hscans, hin, .inl ⟨field, hfield, hbad⟩⟩
  have hstop : ∀ c ∈ s.find? (blank space), blank isspace c = true := fun c hc =>
    Bool.eq_true_of_not_eq_false fun hblank => h ⟨hscans, hin, .inr ⟨c, hc, hblank⟩⟩
  refine ⟨(fields space s).map numeral, ?_, ?_⟩
  · rw [fields_standard hscans hstop, List.forall₂_map_right_iff, List.forall₂_same]
    exact fun field hfield => (cNumeral_of_not_misread (hgood field hfield)).1
  · rw [← List.map_congr_left fun field hfield => mod_of_not_misread (hgood field hfield), hn,
      hton_hton, BitVec.toNat_ofNat, Nat.mod_eq_of_lt (ranged_of_denoted hn).word]

/-- A C numeral scans. -/
theorem CNumeral.scans (h : CNumeral field n) : Scans field := fun c hc =>
  (h.digits.2.1 c hc).trans_le (le_max_left _ _)

theorem exists_numeral {fields : List Name} {values : List ℕ}
    (h : List.Forall₂ CNumeral fields values) (hfield : field ∈ fields) :
    ∃ value ∈ values, CNumeral field value := by
  obtain ⟨i, hi, rfl⟩ := List.getElem_of_mem hfield
  have hi' : i < values.length := h.length_eq ▸ hi
  exact ⟨values[i], List.getElem_mem hi', h.get hi hi'⟩

/-- A character that only the scanner takes for white space stands in a field. -/
theorem exists_field_of_find (hspace : Blanks space) {c : Byte}
    (h : ∀ field ∈ fields space s, Scans field) (hc : c ∈ s.find? (blank space))
    (hblank : blank isspace c = false) : ∃ field ∈ fields isspace s, c ∈ field := by
  have hfound : blank space c = true := List.find?_some hc
  have hdot : c ≠ ascii '.' := by
    rintro rfl
    exact Bool.noConfusion (hspace.dot.symm.trans hfound)
  refine exists_mem_splitOn hdot ?_
  rw [List.find?_eq_head?_dropWhile_not] at hc
  obtain ⟨rest, hdrop⟩ := List.head?_eq_some_iff.1 hc
  have hnot : (!blank isspace c) = true := by
    rw [hblank]
    rfl
  rw [← List.takeWhile_append_dropWhile (p := fun c => !blank space c) (l := s),
    List.takeWhile_append_of_pos (notBlank_of_scans blanks_isspace h), hdrop,
    List.takeWhile_cons_of_pos (p := fun c => !blank isspace c) hnot]
  exact List.mem_append_right _ List.mem_cons_self

/-- A field that is misread does not stand for a number that denotes a part of an address. -/
theorem not_sound_of_irregular (hspace : Blanks space) (h : Irregular space s) :
    ¬Sound (scanAddress space) o s := by
  obtain ⟨n, hn⟩ := Option.isSome_iff_exists.1 h.inRange
  intro hsound
  obtain ⟨values, hvalues, hdenoted⟩ :=
    hsound _ ((scanAddress_iff hspace o s _).2 ⟨h.scans, n, hn, rfl⟩)
  have hstop : ∀ c ∈ s.find? (blank space), blank isspace c = true := by
    refine fun c hc => Bool.eq_true_of_not_eq_false fun hblank => ?_
    obtain ⟨field, hfield, hin⟩ := exists_field_of_find hspace h.scans hc hblank
    obtain ⟨value, -, hnumeral⟩ := exists_numeral hvalues hfield
    have hfound : blank space c = true := List.find?_some hc
    exact Bool.noConfusion ((hnumeral.scans.notBlank hspace c hin).symm.trans hfound)
  rcases h.misread with ⟨field, hfield, hbad⟩ | ⟨c, hc, hblank⟩
  · rw [fields_standard h.scans hstop] at hvalues
    obtain ⟨value, hvalue, hnumeral⟩ := exists_numeral hvalues hfield
    exact hnumeral.not_misread ((ranged_of_denoted hdenoted).lt value hvalue) hbad
  · exact Bool.noConfusion (hblank.symm.trans (hstop c hc))

theorem scanAddress_sound_iff (hspace : Blanks space) (o : ByteOrder) (s : Name) (a : U32) :
    Sound (scanAddress space) o s ∧ RoundTrip (scanAddress space) o a ↔ ¬Irregular space s :=
  ⟨fun h hirr => not_sound_of_irregular hspace hirr h.1,
    fun h => ⟨sound_of_not_irregular hspace h, roundTrip hspace o a⟩⟩

/-- What is accepted is an address in C notation, and each address comes back from its text,
exactly if the string is not one that passes the checks with a misread field or with a backspace
behind the number. -/
theorem sound_roundTrip_iff (o : ByteOrder) (s : Name) (a : U32) :
    (Sound inetAton o s ∧ RoundTrip inetAton o a ↔ ¬Irregular isspace s) ∧
      (Sound myInetAton o s ∧ RoundTrip myInetAton o a ↔ ¬Irregular myIsspace s) :=
  ⟨scanAddress_sound_iff blanks_isspace o s a, scanAddress_sound_iff blanks_myIsspace o s a⟩

/-- A number beyond 32 bits is taken for an address. -/
def tooLong : Name := [ascii '4', ascii '2', ascii '9', ascii '4', ascii '9', ascii '6', ascii '7',
  ascii '2', ascii '9', ascii '7']

theorem not_sound_tooLong : inetAton .little tooLong = some 0x01000000 ∧
    ¬Sound inetAton .little tooLong := by
  have haccepted : inetAton .little tooLong = some 0x01000000 := by decide +kernel
  refine ⟨haccepted, fun hsound => ?_⟩
  obtain ⟨values, hvalues, hdenoted⟩ := hsound _ haccepted
  have hfields : fields isspace tooLong = [tooLong] := by decide +kernel
  rw [hfields] at hvalues
  obtain ⟨n, _, hn, hnil, rfl⟩ := List.forall₂_cons_left_iff.1 hvalues
  obtain rfl := List.forall₂_nil_left_iff.1 hnil
  have hlt := (ranged_of_denoted hdenoted).lt n List.mem_cons_self
  rw [hn.digits.1] at hlt
  revert hlt
  decide +kernel

end MobileCloudCaching.Caching
