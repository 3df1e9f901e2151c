import MobileCloudCaching.Caching.CacheTable
import MobileCloudCaching.Library.Transition
import Mathlib.Data.List.Nodup
import Mathlib.Data.List.TakeWhile

/-!
# The directory of fragments (`fUtils.c`, `cacheTable.c`, `cUtils.c`)

`simpleFS` creates a file for each fragment under `/myfs`, whose name is the two ids with a dash
between them.  When the daemon starts, `init_cache_table` walks over the directory and takes the ids
from each name that is short enough.  Strings are the octets in front of the terminating zero.
-/

namespace MobileCloudCaching.Caching

open Octets Transition

abbrev Name : Type := List Byte

/-- The octet of a character. -/
def ascii (c : Char) : Byte := BitVec.ofNat 8 c.toNat

/-! ## Reading ids -/

def myIsspace (x : Byte) : Bool := [0x20, 0x09, 0x0A, 0x0C, 0x08, 0x0D].contains x

def myIsdigit (x : Byte) : Bool := decide (x ≤ ascii '9') && decide (x ≥ ascii '0')

/-- The loop of `atoi`; the arithmetic of an `int` wraps. -/
def atoiDigits : Name → U32 → U32
  | [], total => total
  | c :: l, total =>
    if myIsdigit c then atoiDigits l (10 * total + (c.setWidth 32 - (ascii '0').setWidth 32))
      else total

def atoi (nptr : Name) : U32 :=
  match nptr.dropWhile myIsspace with
  | [] => 0
  | sign :: l =>
    let total := atoiDigits (if sign = ascii '-' ∨ sign = ascii '+' then l else sign :: l) 0
    if sign = ascii '-' then -total else total

/-- `strtok_r`: the token, and what it leaves in `*save_ptr`.  It
fails when it reads at a null pointer. -/
def strtokR (s : Option Name) (delim : Name) (savePtr : Option Name) :
    Option (Option Name × Option Name) := do
  let s ← s.or savePtr
  let token := s.dropWhile delim.contains
  if token = [] then return (none, savePtr)
  let isToken := fun c => !delim.contains c
  match token.dropWhile isToken with
  | [] => return (some token, some [])
  | _ :: s => return (some (token.takeWhile isToken), some s)

/-! ## Writing names -/

/-- `sprintf` with nothing but a format.  It fails when the format
asks for arguments that are not there. -/
structure Sprintf where
  run : Name → Option Name
  plain : ∀ format, ascii '%' ∉ format → run format = some format

/-- A string is written into a buffer of `size` octets, together with its terminating zero. -/
def intoBuffer (size : ℕ) (s : Name) : Option Name := if s.length < size then some s else none

def myfsPath : Name := [ascii '/', ascii 'm', ascii 'y', ascii 'f', ascii 's', ascii '/']

/-- The file that marks the directory. -/
def marker : Name := [ascii 'a']

/-- `createFrag`, on the files under `/myfs`, or none while the directory does not exist.
The calls of the file system succeed. -/
def createFrag (libc : Sprintf) (fileId fragId : Name) (myfs : Option (List Name)) :
    Option (List Name) := do
  let files := myfs.getD [marker]
  let fileId ← (libc.run fileId).bind (intoBuffer 10)
  let fragId ← (libc.run fragId).bind (intoBuffer 10)
  let name ← intoBuffer 20 (myfsPath ++ fileId ++ [ascii '-'] ++ fragId)
  let file := name.drop myfsPath.length
  return if file ∈ files then files else file :: files

/-! ## Loading the directory -/

/-- The ids that the loop of `init_cache_table` takes from a name. -/
def nameIds (kernel : Sprintf) (dName : Name) : Option (U32 × U32) := do
  let name ← (kernel.run dName).bind (intoBuffer 20)
  let (token, ptr) ← strtokR (some name) [ascii '-'] none
  let fileId := atoi (← token)
  let (token, _) ← strtokR none [ascii '-'] ptr
  let fragId := atoi (← token)
  return (fileId, fragId)

/-- The loop of `init_cache_table`, one name; the number counts the allocations so far. -/
def loadName (kernel : Sprintf) (mem : Mem) (dName : Name) (s : ℕ × Daemon) : Option (ℕ × Daemon) :=
  if dName.length < 10 then do
    let (fileId, fragId) ← nameIds kernel dName
    return (s.1 + 1, createCache (mem.ok .cache s.1) fileId fragId 1 s.2)
  else some s

/-- The state in which `init_cache_table` begins its walk. -/
def emptyTable (d : Daemon) : ℕ × Daemon := (0, { d with ctable := [], ctLen := 0 })

/-- `init_cache_table`, which comes to the files of `names`. -/
def loadDirectory (kernel : Sprintf) (mem : Mem) (names : List Name) (d : Daemon) : Option Daemon :=
  (exec (loadName kernel mem) names (emptyTable d)).map Prod.snd

/-! ## Numerals -/

/-- The number that decimal digits stand for. -/
def decimal (l : Name) : ℕ := l.foldl (fun n c => 10 * n + (c.toNat - 48)) 0

/-- The digits of a number, not necessarily without zeros in front. -/
structure Numeral (l : Name) : Prop where
  ne_nil : l ≠ []
  digits : ∀ c ∈ l, myIsdigit c = true

variable {libc kernel : Sprintf} {mem : Mem} {file frag l : Name} {delim : Name}
    {s : ℕ × Daemon} {d : Daemon}

theorem myIsdigit_iff {c : Byte} : myIsdigit c = true ↔ 48 ≤ c.toNat ∧ c.toNat ≤ 57 := by
  have h₀ : (ascii '0').toNat = 48 := rfl
  have h₉ : (ascii '9').toNat = 57 := rfl
  rw [myIsdigit, Bool.and_eq_true, decide_eq_true_iff, decide_eq_true_iff, BitVec.le_def,
    ge_iff_le, BitVec.le_def, h₀, h₉, and_comm]

/-- No other character is a digit. -/
theorem ne_of_isdigit {c x : Byte} (h : myIsdigit c = true) (hx : myIsdigit x = false) : c ≠ x := by
  rintro rfl
  exact Bool.noConfusion (h.symm.trans hx)

theorem atoiDigits_eq (hl : ∀ c ∈ l, myIsdigit c = true)
    (n : ℕ) : atoiDigits l (BitVec.ofNat 32 n) =
    BitVec.ofNat 32 (l.foldl (fun n c => 10 * n + (c.toNat - 48)) n) := by
  induction l generalizing n with
  | nil => rfl
  | cons c l ih =>
    obtain ⟨hc, hl⟩ := List.forall_mem_cons.1 hl
    have hstep : 10 * BitVec.ofNat 32 n + (c.setWidth 32 - (ascii '0').setWidth 32) =
        BitVec.ofNat 32 (10 * n + (c.toNat - 48)) := by
      obtain ⟨hlow, hhigh⟩ := myIsdigit_iff.1 hc
      have h₀ : (ascii '0').toNat = 48 := rfl
      have h₁₀ : (10 : U32).toNat = 10 := rfl
      apply BitVec.eq_of_toNat_eq
      simp only [BitVec.toNat_add, BitVec.toNat_mul, BitVec.toNat_sub, BitVec.toNat_ofNat,
        BitVec.toNat_setWidth, h₀, h₁₀]
      omega
    rw [atoiDigits, if_pos hc, hstep, ih hl, List.foldl_cons]

theorem atoi_numeral (h : Numeral l) : atoi l = BitVec.ofNat 32 (decimal l) := by
  cases l with
  | nil => exact absurd rfl h.ne_nil
  | cons c l =>
    have hc := h.digits c List.mem_cons_self
    have hspaces : ∀ x ∈ ([0x20, 0x09, 0x0A, 0x0C, 0x08, 0x0D] : List Byte),
      myIsdigit x = false := by decide
    have hspace : ¬myIsspace c = true := fun hspace =>
      ne_of_isdigit hc (hspaces c (List.contains_iff_mem.1 hspace)) rfl
    have hsign : ¬(c = ascii '-' ∨ c = ascii '+') := fun hsign => by
      rcases hsign with rfl | rfl <;> exact Bool.noConfusion hc
    rw [atoi, List.dropWhile_cons_of_neg hspace]
    simp only [if_neg hsign, if_neg fun h => hsign (.inl h)]
    exact atoiDigits_eq h.digits 0

theorem decimal_lt (h : ∀ c ∈ l, myIsdigit c = true) : decimal l < 10 ^ l.length := by
  have hfold : ∀ (l : Name) (n : ℕ), (∀ c ∈ l, myIsdigit c = true) →
      l.foldl (fun n c => 10 * n + (c.toNat - 48)) n < (n + 1) * 10 ^ l.length := by
    intro l
    induction l with
    | nil => exact fun n _ => by simp
    | cons c l ih =>
      intro n hl
      obtain ⟨hc, hl⟩ := List.forall_mem_cons.1 hl
      have hhigh := (myIsdigit_iff.1 hc).2
      calc l.foldl (fun n c => 10 * n + (c.toNat - 48)) (10 * n + (c.toNat - 48))
          < (10 * n + (c.toNat - 48) + 1) * 10 ^ l.length := ih _ hl
        _ ≤ (n + 1) * 10 * 10 ^ l.length := Nat.mul_le_mul_right _ (by omega)
        _ = (n + 1) * 10 ^ (c :: l).length := by rw [List.length_cons, pow_succ', Nat.mul_assoc]
  exact (hfold l 0 h).trans_le (by simp)

/-! ## Tokens -/

/-- What does not begin with a delimiter begins with a token. -/
theorem dropWhile_contains (h : l ≠ []) (hl : ∀ x ∈ l, delim.contains x = false) (rest : Name) :
    (l ++ rest).dropWhile delim.contains = l ++ rest := by
  obtain ⟨x, l, rfl⟩ := List.exists_cons_of_ne_nil h
  have hx := hl x List.mem_cons_self
  exact List.dropWhile_cons_of_neg (Bool.eq_false_iff.1 hx)

/-- A token, and what is behind the delimiter. -/
theorem strtokR_token {c : Byte} {rest : Name} (h : l ≠ []) (hl : ∀ x ∈ l, delim.contains x = false)
    (hc : delim.contains c = true) (savePtr : Option Name) :
    strtokR (some (l ++ c :: rest)) delim savePtr = some (some l, some rest) := by
  have htoken : ∀ x ∈ l, (!delim.contains x) = true := fun x hx => by rw [hl x hx]; rfl
  have hstop : ¬(!delim.contains c) = true := by rw [hc]; exact Bool.false_ne_true
  have hne : l ++ c :: rest ≠ [] := List.append_ne_nil_of_right_ne_nil l (List.cons_ne_nil c rest)
  have hrest : (l ++ c :: rest).dropWhile (fun x => !delim.contains x) = c :: rest := by
    rw [List.dropWhile_append_of_pos htoken,
      List.dropWhile_cons_of_neg (p := fun x => !delim.contains x) hstop]
  have hfront : (l ++ c :: rest).takeWhile (fun x => !delim.contains x) = l := by
    rw [List.takeWhile_append_of_pos htoken,
      List.takeWhile_cons_of_neg (p := fun x => !delim.contains x) hstop, List.append_nil]
  simp only [strtokR, Option.some_or, Option.bind_eq_bind, Option.bind_some,
    dropWhile_contains h hl, if_neg hne, hrest, hfront, Option.pure_def]

/-- The last token. -/
theorem strtokR_last (h : l ≠ []) (hl : ∀ x ∈ l, delim.contains x = false) :
    strtokR none delim (some l) = some (some l, some []) := by
  have htoken : ∀ x ∈ l, (!delim.contains x) = true := fun x hx => by rw [hl x hx]; rfl
  have hdrop := dropWhile_contains h hl []
  rw [List.append_nil] at hdrop
  have hrest : l.dropWhile (fun x => !delim.contains x) = [] := List.dropWhile_eq_nil_iff.2 htoken
  simp only [strtokR, Option.none_or, Option.bind_eq_bind, Option.bind_some, hdrop, if_neg h, hrest,
    Option.pure_def]

/-! ## Names of fragments -/

def fragName (file frag : Name) : Name := file ++ ascii '-' :: frag

/-- Two ids that the buffers of `createFrag` can hold. -/
structure Fits (file frag : Name) : Prop where
  fileId : Numeral file
  fragId : Numeral frag
  file_le : file.length ≤ 9
  frag_le : frag.length ≤ 9
  path_le : (myfsPath ++ file ++ [ascii '-'] ++ frag).length ≤ 19

theorem Fits.length_le (h : Fits file frag) : (fragName file frag).length ≤ 13 := by
  have hpath := h.path_le
  have hmyfs : myfsPath.length = 6 := rfl
  simp only [List.length_append, hmyfs, List.length_singleton] at hpath
  rw [fragName, List.length_append, List.length_cons]
  omega

theorem Fits.not_percent (h : Fits file frag) : ascii '%' ∉ fragName file frag := by
  have hdigit : myIsdigit (ascii '%') = false := by decide
  rw [fragName, List.mem_append, List.mem_cons]
  rintro (hmem | hdash | hmem)
  · exact ne_of_isdigit (h.fileId.digits _ hmem) hdigit rfl
  · exact absurd hdash (by decide)
  · exact ne_of_isdigit (h.fragId.digits _ hmem) hdigit rfl

theorem Numeral.not_percent (h : Numeral l) : ascii '%' ∉ l := fun hmem =>
  ne_of_isdigit (h.digits _ hmem) (by decide) rfl

theorem Numeral.not_dash (h : Numeral l) : ∀ x ∈ l, [ascii '-'].contains x = false := fun x hx => by
  have hne : x ≠ ascii '-' := ne_of_isdigit (h.digits x hx) (by decide)
  rw [List.contains_eq_mem, decide_eq_false_iff_not, List.mem_singleton]
  exact hne

/-- The ids come back from the name. -/
theorem nameIds_fragName (h : Fits file frag) (kernel : Sprintf) :
    nameIds kernel (fragName file frag) = some (BitVec.ofNat 32 (decimal file),
    BitVec.ofNat 32 (decimal frag)) := by
  have hbuffer : intoBuffer 20 (fragName file frag) = some (fragName file frag) :=
    if_pos (h.length_le.trans_lt (by decide))
  have hdash : [ascii '-'].contains (ascii '-') = true := by decide
  have hfirst : strtokR (some (fragName file frag)) [ascii '-'] none =
      some (some file, some frag) :=
    strtokR_token h.fileId.ne_nil h.fileId.not_dash hdash none
  have hsecond := strtokR_last h.fragId.ne_nil h.fragId.not_dash
  rw [nameIds, kernel.plain _ h.not_percent]
  simp only [Option.bind_some, hbuffer, Option.bind_eq_bind, hfirst, hsecond, atoi_numeral h.fileId,
    atoi_numeral h.fragId, Option.pure_def]

/-- The file of the fragment is in the directory, where it may have been before. -/
theorem createFrag_eq (h : Fits file frag) (libc : Sprintf) (myfs : Option (List Name)) :
    createFrag libc file frag myfs =
      some (if fragName file frag ∈ myfs.getD [marker] then myfs.getD [marker]
        else fragName file frag :: myfs.getD [marker]) := by
  have hfile : intoBuffer 10 file = some file := if_pos (Nat.lt_succ_of_le h.file_le)
  have hfrag : intoBuffer 10 frag = some frag := if_pos (Nat.lt_succ_of_le h.frag_le)
  have hpath : intoBuffer 20 (myfsPath ++ file ++ [ascii '-'] ++ frag) =
      some (myfsPath ++ file ++ [ascii '-'] ++ frag) := if_pos (Nat.lt_succ_of_le h.path_le)
  have hname : (myfsPath ++ file ++ [ascii '-'] ++ frag).drop myfsPath.length =
      fragName file frag := by
    rw [List.append_assoc, List.append_assoc, List.drop_left]
    rfl
  simp only [createFrag, libc.plain _ h.fileId.not_percent, libc.plain _ h.fragId.not_percent,
    Option.bind_some, hfile, hfrag, hpath, hname, Option.bind_eq_bind, Option.pure_def]

/-! ## What the daemon makes of the names -/

/-- The name is the one of a fragment. -/
def IsFragment (dName : Name) : Prop := ∃ file frag, Fits file frag ∧ dName = fragName file frag

/-- The name is one of the fragment with these ids, written perhaps with other zeros in front. -/
def Names (dName file frag : Name) : Prop :=
  ∃ file' frag', Fits file' frag' ∧ dName = fragName file' frag' ∧
    decimal file' = decimal file ∧ decimal frag' = decimal frag

/-- The entries of the fragment. -/
def entriesOf (file frag : Name) (t : List CacheTable) : List CacheTable :=
  t.filter fun c => decide (c.fileId.toNat = decimal file ∧ c.fragId.toNat = decimal frag)

/-- The daemon starts, and for each fragment of the directory there is exactly one entry, of a
service center; at the turn of any other name no entry is made. -/
structure Recovered (kernel : Sprintf) (mem : Mem) (names : List Name) (d : Daemon) : Prop where
  found : ∃ t, loadDirectory kernel mem names d = some t ∧
    ∀ file frag, Fits file frag → fragName file frag ∈ names →
      ∃ c, entriesOf file frag t.ctable = [c] ∧ c.isServiceCenter = 1
  ignored : AllSteps (loadName kernel mem) (fun dName s => ¬IsFragment dName →
    (loadName kernel mem dName s).map Prod.snd = some s.2) names (emptyTable d)

/-- Nine digits fit into an id. -/
theorem toNat_decimal (h : Numeral l) (hlen : l.length ≤ 9) :
    (BitVec.ofNat 32 (decimal l)).toNat = decimal l := by
  have hlt : decimal l < 2 ^ 32 :=
    (decimal_lt h.digits).trans ((Nat.pow_le_pow_right (by decide) hlen).trans_lt (by decide))
  rw [BitVec.toNat_ofNat, Nat.mod_eq_of_lt hlt]

theorem loadName_of_long {dName : Name} (h : ¬dName.length < 10) :
    loadName kernel mem dName s = some s := if_neg h

/-- The names that the loader looks into. -/
def shortNames (names : List Name) : List Name := names.filter fun dName =>
  decide (dName.length < 10)

theorem shortNames_cons_of_short {dName : Name} (h : dName.length < 10) (names : List Name) :
    shortNames (dName :: names) = dName :: shortNames names :=
      List.filter_cons_of_pos (by simpa using h)

theorem shortNames_cons_of_long {dName : Name} (h : ¬dName.length < 10) (names : List Name) :
    shortNames (dName :: names) = shortNames names := List.filter_cons_of_neg (by simpa using h)

theorem loadName_of_short {dName : Name} (h : dName.length < 10) : loadName kernel mem dName s =
    (nameIds kernel dName).map fun ids =>
      (s.1 + 1, createCache (mem.ok .cache s.1) ids.1 ids.2 1 s.2) := by
  rw [loadName, if_pos h]
  exact Option.map_eq_bind.symm

/-- The table is the one that the calls of `create_cache` for the ids build. -/
theorem loadDirectory_eq (kernel : Sprintf) (mem : Mem) (names : List Name) (d : Daemon) :
    loadDirectory kernel mem names d =
      ((shortNames names).mapM (nameIds kernel)).map fun ids => initCacheTable mem ids d := by
  have hrun : ∀ (names : List Name) (s : ℕ × Daemon), exec (loadName kernel mem) names s =
      ((shortNames names).mapM (nameIds kernel)).map fun ids => (s.1 + ids.length,
        createCaches (ids.mapIdx fun i n => ⟨mem.ok .cache (s.1 + i), n.1, n.2, 1⟩) s.2) := by
    intro names
    induction names with
    | nil => exact fun s => rfl
    | cons dName names ih =>
      intro s
      by_cases hshort : dName.length < 10
      · rw [exec, loadName_of_short hshort, shortNames_cons_of_short hshort, List.mapM_cons]
        cases nameIds kernel dName with
        | none => rfl
        | some id =>
          simp only [Option.map_some, Option.bind_some, Option.bind_eq_bind, Option.pure_def, ih]
          cases (shortNames names).mapM (nameIds kernel) with
          | none => rfl
          | some ids =>
            simp only [Option.map_some, Option.bind_some, List.length_cons,
              List.mapIdx_cons, createCaches, List.foldl_cons, Nat.add_zero,
              Nat.add_assoc, Nat.add_comm 1]
      · rw [exec, loadName_of_long hshort, shortNames_cons_of_long hshort]
        exact ih s
  rw [loadDirectory, hrun, Option.map_map]
  refine congrArg (Option.map · _) (funext fun ids => ?_)
  simp only [Function.comp_apply, emptyTable, Nat.zero_add, initCacheTable]

/-- The short names, each with the number of the allocation that its entry asks for. -/
def turns (names : List Name) : List (Name × ℕ) := (shortNames names).zipIdx

/-- The entry that is made at the turn of a short name. -/
def madeEntry (kernel : Sprintf) (mem : Mem) (turn : Name × ℕ) : Option CacheTable :=
  if mem.ok .cache turn.2 then
    (nameIds kernel turn.1).map fun ids =>
      { fileId := ids.1, fragId := ids.2, refs := 0, isServiceCenter := 1 }
  else none

/-- Each fragment of the directory has exactly one name among the short names that get memory; any
other short name has two parts, and gets no memory. -/
structure Loadable (kernel : Sprintf) (mem : Mem) (names : List Name) : Prop where
  once : ∀ file frag, Fits file frag → fragName file frag ∈ names →
    ∃! turn, turn ∈ turns names ∧ mem.ok .cache turn.2 = true ∧ Names turn.1 file frag
  others : ∀ turn ∈ turns names, IsFragment turn.1 ∨
    (nameIds kernel turn.1).isSome = true ∧ mem.ok .cache turn.2 = false

variable {names : List Name} {turn : Name × ℕ}

/-- A name without a second part stops the start, and one with two parts makes an entry when there
is memory for it. -/
theorem ignored_turn_iff {dName : Name} (h : dName.length < 10) :
    (loadName kernel mem dName s).map Prod.snd = some s.2 ↔
      (nameIds kernel dName).isSome = true ∧ mem.ok .cache s.1 = false := by
  rw [loadName_of_short h, Option.map_map]
  cases nameIds kernel dName with
  | none => simp
  | some ids =>
    cases hok : mem.ok .cache s.1 with
    | false => simp [createCache]
    | true =>
      refine iff_of_false (fun heq => ?_) (by simp)
      have hlen := congrArg (fun t => t.ctable.length) (Option.some.inj heq)
      exact Nat.succ_ne_self _ hlen

theorem isSome_nameIds_of_isFragment {dName : Name} (h : IsFragment dName) (kernel : Sprintf) :
    (nameIds kernel dName).isSome = true := by
  obtain ⟨file, frag, hfits, rfl⟩ := h
  rw [nameIds_fragName hfits]
  rfl

/-- The turns of a directory, from any number of allocations on. -/
theorem ignored_iff (kernel : Sprintf) (mem : Mem) (names : List Name) (s : ℕ × Daemon) :
    AllSteps (loadName kernel mem) (fun dName s => ¬IsFragment dName →
      (loadName kernel mem dName s).map Prod.snd = some s.2) names s ↔
    ∀ turn ∈ (shortNames names).zipIdx s.1, IsFragment turn.1 ∨
      (nameIds kernel turn.1).isSome = true ∧ mem.ok .cache turn.2 = false := by
  induction names generalizing s with
  | nil => exact iff_of_true trivial fun turn hturn => absurd hturn List.not_mem_nil
  | cons dName names ih =>
    rw [AllSteps]
    by_cases hshort : dName.length < 10
    · rw [shortNames_cons_of_short hshort, List.zipIdx_cons, List.forall_mem_cons,
        ignored_turn_iff hshort, or_iff_not_imp_left]
      refine and_congr_right fun hturn => ?_
      -- the run goes on, so the others are asked about
      have hsome : (nameIds kernel dName).isSome = true := by
        by_cases hfrag : IsFragment dName
        · exact isSome_nameIds_of_isFragment hfrag kernel
        · exact (hturn hfrag).1
      obtain ⟨ids, hids⟩ := Option.isSome_iff_exists.1 hsome
      rw [loadName_of_short hshort, hids]
      constructor
      · exact fun hrest => (ih _).1 (hrest _ rfl)
      · rintro hrest t ⟨⟩
        exact (ih _).2 hrest
    · rw [shortNames_cons_of_long hshort, loadName_of_long hshort, ← ih]
      constructor
      · exact fun h => h.2 s rfl
      · refine fun h => ⟨fun _ => rfl, ?_⟩
        rintro t ⟨⟩
        exact h

/-- A start comes to its end when every short name has two parts. -/
theorem exists_exec_loadName (names : List Name) (s : ℕ × Daemon)
    (h : ∀ dName ∈ shortNames names, (nameIds kernel dName).isSome = true) :
    ∃ t, exec (loadName kernel mem) names s = some t ∧
      t.2.ctable = (((shortNames names).zipIdx s.1).filterMap
        (madeEntry kernel mem)).reverse ++ s.2.ctable := by
  induction names generalizing s with
  | nil => exact ⟨s, rfl, rfl⟩
  | cons dName names ih =>
    by_cases hshort : dName.length < 10
    · rw [shortNames_cons_of_short hshort] at h ⊢
      obtain ⟨hsome, hrest⟩ := List.forall_mem_cons.1 h
      obtain ⟨ids, hids⟩ := Option.isSome_iff_exists.1 hsome
      obtain ⟨t, ht, htable⟩ :=
        ih (s.1 + 1, createCache (mem.ok .cache s.1) ids.1 ids.2 1 s.2) hrest
      refine ⟨t, ?_, ?_⟩
      · rw [exec_cons, loadName_of_short hshort, hids]
        exact ht
      · rw [htable, List.zipIdx_cons, List.filterMap_cons, madeEntry, hids]
        cases mem.ok .cache s.1 with
        | false => rfl
        | true => exact (List.append_cons _ _ _).trans (by simp)
    · rw [shortNames_cons_of_long hshort] at h ⊢
      rw [exec_cons, loadName_of_long hshort]
      exact ih s h

/-- The entry of a short name is one of the fragment exactly if the name is. -/
theorem madeEntry_iff (hturn : IsFragment turn.1 ∨
      (nameIds kernel turn.1).isSome = true ∧ mem.ok .cache turn.2 = false) :
    (((madeEntry kernel mem turn).map fun c => decide (c.fileId.toNat = decimal file ∧
      c.fragId.toNat = decimal frag)).getD false) = true ↔
      mem.ok .cache turn.2 = true ∧ Names turn.1 file frag := by
  cases hok : mem.ok .cache turn.2 with
  | false => simp [madeEntry, hok]
  | true =>
    have hmade : ∀ file' frag', Fits file' frag' → turn.1 = fragName file' frag' →
        ((((madeEntry kernel mem turn).map fun c => decide (c.fileId.toNat = decimal file ∧
          c.fragId.toNat = decimal frag)).getD false) = true ↔
          decimal file' = decimal file ∧ decimal frag' = decimal frag) := by
      intro file' frag' hfits hname
      rw [madeEntry, if_pos hok, hname, nameIds_fragName hfits]
      simp only [Option.map_some, Option.getD_some, decide_eq_true_iff,
        toNat_decimal hfits.fileId hfits.file_le, toNat_decimal hfits.fragId hfits.frag_le]
    obtain ⟨file', frag', hfits, hname⟩ : IsFragment turn.1 :=
      hturn.resolve_right fun h => Bool.noConfusion (hok.symm.trans h.2)
    constructor
    · intro h
      exact ⟨rfl, file', frag', hfits, hname, (hmade file' frag' hfits hname).1 h⟩
    · rintro ⟨-, file'', frag'', hfits', hname', hids⟩
      exact (hmade file'' frag'' hfits' hname').2 hids

theorem countP_eq_one_iff {α : Type*} {l : List α} (hl : l.Nodup) (p : α → Bool) :
    l.countP p = 1 ↔ ∃! a, a ∈ l ∧ p a = true := by
  rw [List.countP_eq_length_filter, List.length_eq_one_iff]
  constructor
  · rintro ⟨a, ha⟩
    have hmem : ∀ b, b ∈ l ∧ p b = true ↔ b = a := fun b => by
      rw [← List.mem_filter, ha, List.mem_singleton]
    exact ⟨a, (hmem a).2 rfl, fun b hb => (hmem b).1 hb⟩
  · rintro ⟨a, ha, hunique⟩
    refine ⟨a, List.perm_singleton.1 ?_⟩
    refine (List.perm_ext_iff_of_nodup (hl.filter p) (List.nodup_singleton a)).2 fun b => ?_
    rw [List.mem_filter, List.mem_singleton]
    exact ⟨fun hb => hunique b hb, fun hb => hb ▸ ha⟩

theorem turns_nodup (names : List Name) : (turns names).Nodup := by
  refine List.Nodup.of_map Prod.snd ?_
  rw [turns, List.zipIdx_map_snd]
  exact List.nodup_range'

/-- The entries of a fragment are as many as its short names that got memory. -/
theorem length_entriesOf_eq_one_iff (file frag : Name)
    (hothers : ∀ turn ∈ turns names, IsFragment turn.1 ∨
      (nameIds kernel turn.1).isSome = true ∧ mem.ok .cache turn.2 = false) :
    (entriesOf file frag ((turns names).filterMap (madeEntry kernel mem)).reverse).length = 1 ↔
      ∃! turn, turn ∈ turns names ∧ mem.ok .cache turn.2 = true ∧ Names turn.1 file frag := by
  rw [entriesOf, ← List.countP_eq_length_filter, List.countP_reverse, List.countP_filterMap,
    countP_eq_one_iff (turns_nodup names)]
  refine existsUnique_congr fun turn => and_congr_right fun hturn => ?_
  exact madeEntry_iff (hothers turn hturn)

/-- A start serves the directory exactly if the directory is one that it can load. -/
theorem recovered_iff (kernel : Sprintf) (mem : Mem) (names : List Name) (d : Daemon) :
    Recovered kernel mem names d ↔ Loadable kernel mem names := by
  have hignored := ignored_iff kernel mem names (emptyTable d)
  have hfound : (∀ turn ∈ turns names, IsFragment turn.1 ∨
      (nameIds kernel turn.1).isSome = true ∧ mem.ok .cache turn.2 = false) →
      ∃ t, loadDirectory kernel mem names d = some t ∧
        t.ctable = ((turns names).filterMap (madeEntry kernel mem)).reverse := by
    intro hothers
    have hall : ∀ dName ∈ shortNames names, (nameIds kernel dName).isSome = true := by
      intro dName hmem
      obtain ⟨i, hi⟩ := List.mem_iff_getElem?.1 hmem
      rcases hothers (dName, i) (List.mem_zipIdx_iff_getElem?.2 hi) with hfrag | hnone
      · exact isSome_nameIds_of_isFragment hfrag kernel
      · exact hnone.1
    obtain ⟨t, ht, htable⟩ := exists_exec_loadName names (emptyTable d) hall
    refine ⟨t.2, by rw [loadDirectory, ht, Option.map_some], ?_⟩
    rw [htable]
    exact List.append_nil _
  constructor
  · rintro ⟨⟨t, ht, hentries⟩, hsteps⟩
    have hothers := hignored.1 hsteps
    obtain ⟨u, hu, htable⟩ := hfound hothers
    obtain rfl := Option.some.inj (hu.symm.trans ht)
    refine ⟨fun file frag hfits hmem => ?_, hothers⟩
    obtain ⟨c, hc, -⟩ := hentries file frag hfits hmem
    rw [htable] at hc
    exact (length_entriesOf_eq_one_iff file frag hothers).1 (by rw [hc, List.length_singleton])
  · intro h
    obtain ⟨t, ht, htable⟩ := hfound h.others
    refine ⟨⟨t, ht, fun file frag hfits hmem => ?_⟩, hignored.2 h.others⟩
    have hone := (length_entriesOf_eq_one_iff file frag h.others).2 (h.once file frag hfits hmem)
    rw [← htable] at hone
    obtain ⟨c, hc⟩ := List.length_eq_one_iff.1 hone
    refine ⟨c, hc, ?_⟩
    -- every entry that a start makes is one of a service center
    have hin : c ∈ t.ctable := (List.mem_filter.1 (hc ▸ List.mem_singleton_self c)).1
    rw [htable, List.mem_reverse, List.mem_filterMap] at hin
    obtain ⟨turn, -, hmade⟩ := hin
    obtain ⟨-, hids⟩ := Option.ite_none_right_eq_some.1 hmade
    obtain ⟨ids, -, rfl⟩ := Option.map_eq_some_iff.1 hids
    rfl

/-- After `createFrag`, whatever else is in the directory, a start of the daemon that comes to
every file but the marker makes exactly one entry for each fragment and none for another name,
exactly if each fragment has one name of fewer than ten characters that gets memory, and no other
name is as short, unless it has two parts and gets none. -/
theorem createFrag_recovered_iff (h : Fits file frag) (libc kernel : Sprintf)
    (mem : Mem) (d : Daemon) (myfs : Option (List Name)) :
    ∃ files, createFrag libc file frag myfs = some files ∧
      ∀ names, names.Perm (files.filter fun n => n != marker) → fragName file frag ∈ names ∧
        (Recovered kernel mem names d ↔ Loadable kernel mem names) := by
  refine ⟨_, createFrag_eq h libc myfs, fun names hnames => ⟨?_, recovered_iff kernel mem names d⟩⟩
  have hne : fragName file frag ≠ marker := fun heq => by
    have hlen := congrArg List.length heq
    have hpos := List.length_pos_of_ne_nil h.fileId.ne_nil
    simp only [fragName, marker, List.length_append, List.length_cons, List.length_nil] at hlen
    omega
  rw [hnames.mem_iff, List.mem_filter]
  refine ⟨?_, bne_iff_ne.2 hne⟩
  split
  · assumption
  · exact List.mem_cons_self

/-- A `sprintf` that fails for every conversion. -/
def Sprintf.strict : Sprintf where
  run format := if ascii '%' ∈ format then none else some format
  plain _ h := if_neg h

/-- The file 12-3 in a new directory. -/
theorem createFrag_recovered_new : ∃ files,
    createFrag .strict [ascii '1', ascii '2'] [ascii '3'] none = some files ∧
      Recovered .strict .plenty (files.filter fun n => n != marker) {} := by
  have hfits : Fits [ascii '1', ascii '2'] [ascii '3'] :=
    ⟨⟨by decide, by decide⟩, ⟨by decide, by decide⟩, by decide, by decide, by decide⟩
  obtain ⟨files, hfiles, hall⟩ := createFrag_recovered_iff hfits .strict .strict .plenty {} none
  refine ⟨files, hfiles, (hall _ (.refl _)).2.2 ?_⟩
  have hturns : turns (files.filter fun n => n != marker) =
      [(fragName [ascii '1', ascii '2'] [ascii '3'], 0)] := by
    rw [createFrag_eq hfits] at hfiles
    rw [← Option.some.inj hfiles]
    decide
  refine ⟨fun file frag hfit hmem => ?_, fun turn hturn => ?_⟩
  · have heq : fragName file frag = fragName [ascii '1', ascii '2'] [ascii '3'] := by
      rw [createFrag_eq hfits] at hfiles
      rw [← Option.some.inj hfiles] at hmem
      exact List.mem_singleton.1 hmem
    rw [hturns, ← heq]
    refine ⟨(fragName file frag, 0), ⟨List.mem_singleton_self _, rfl, ?_⟩, fun turn h => ?_⟩
    · exact ⟨file, frag, hfit, rfl, rfl, rfl⟩
    · exact List.mem_singleton.1 h.1
  · rw [hturns, List.mem_singleton] at hturn
    rw [hturn]
    exact .inl ⟨_, _, hfits, rfl⟩

/-- The file 123456789-1 is left out. -/
theorem not_createFrag_recovered_long : ¬∀ (libc kernel : Sprintf) (mem : Mem) (file frag : Name)
    (myfs : Option (List Name)) (files names : List Name), mem.Succeeds → Fits file frag →
    createFrag libc file frag myfs = some files → names.Perm (files.filter fun n => n != marker) →
      Recovered kernel mem names {} := by
  intro h
  let file : Name := [1, 2, 3, 4, 5, 6, 7, 8, 9].map fun c => 48 + c
  have hfits : Fits file [ascii '1'] :=
    ⟨⟨by decide, by decide⟩, ⟨by decide, by decide⟩, by decide, by decide, by decide⟩
  have hrecovered :=
    h .strict .strict .plenty _ _ none _ _ (fun _ _ => rfl) hfits
    (createFrag_eq hfits _ _) (.refl _)
  have hload := (recovered_iff _ _ _ _).1 hrecovered
  obtain ⟨turn, ⟨hturn, -⟩, -⟩ := hload.once file [ascii '1'] hfits (by decide)
  have hnone : shortNames ([fragName file [ascii '1']]) = [] := by decide
  exact absurd (hnone ▸ hturn : turn ∈ ([] : List Name).zipIdx) List.not_mem_nil

/-- Another short name makes an entry of the ids 0 and 0 if it has two
parts, and stops the daemon if it has one. -/
example : nameIds .strict [ascii 'x', ascii '-', ascii 'y'] = some (0, 0) ∧
    nameIds .strict [ascii 'x'] = none := by
  decide

end MobileCloudCaching.Caching
