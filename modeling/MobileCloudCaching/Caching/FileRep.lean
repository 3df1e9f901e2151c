import MobileCloudCaching.Caching.FragReq
import MobileCloudCaching.Library.Traced

/-!
# File replies (`cFileRep.c`)

A reply for this node becomes an entry of the list `rinfo`, and the first one for a file starts the
timer after which `process_flrep` chooses fragments from the replies, the nearest ones first.  An
entry is read and written as an array of words by index, so both are recorded: the map has eight
words, and what lies behind it in the structure are `frag_count`, `expired` and the two links.
-/

namespace MobileCloudCaching.Caching

open Octets

variable (p : Params)

/-- An access through `frags` or through `map`, by index. -/
inductive Access
  | readFrag (i : ℕ)
  | writeMap (i : ℕ)
  | readMap (i : ℕ)
  deriving DecidableEq, Repr

/-! ## The list of file replies -/

namespace FileRepInfo

/-- The test of `find_rinfo`. -/
def live (fileId : U32) (r : FileRepInfo) : Bool := r.expired != 1 && r.fileId == fileId

/-- `expired = 1` -/
def expire (r : FileRepInfo) : FileRepInfo := { r with expired := 1 }

/-- `map[i] = x`.  The links, at indices 10 and 11, are set again before anybody reads them, and the
structure ends there. -/
def storeMap (r : FileRepInfo) (i : ℕ) (x : U32) : FileRepInfo :=
  if h : i < 8 then { r with map := r.map.set i x }
  else if i = 8 then { r with fragCount := x }
  else if i = 9 then { r with expired := x }
  else r

/-- `map[i]`; what is behind `expired` are pointers. -/
def loadMap (r : FileRepInfo) (i : ℕ) : Option U32 :=
  if h : i < 8 then some r.map[i]
  else if i = 8 then some r.fragCount
  else if i = 9 then some r.expired
  else none

end FileRepInfo

def findRinfo (l : List FileRepInfo) (fileId : U32) : Option FileRepInfo :=
  l.find? (FileRepInfo.live fileId)

/-- Every entry of the file is marked. -/
def expireFile (fileId : U32) (l : List FileRepInfo) : List FileRepInfo :=
  l.map fun r => if r.live fileId then r.expire else r

def flushRinfo (d : Daemon) : Daemon :=
  { d with rinfo := d.rinfo.filter fun r => r.expired != 1 }

/-- The loop of `create_rinfo`, from index `i` on, with `n` rounds to go. -/
def copyFrags (o : ByteOrder) (frags : ℕ → U32) : ℕ → ℕ → FileRepInfo → Traced Access FileRepInfo
  | 0, _, r => pure r
  | n + 1, i, r => do
    let x ← Traced.access (.readFrag i) (frags i)
    let r ← Traced.access (.writeMap i) (r.storeMap i (hton o x))
    copyFrags o frags n (i + 1) r

@[simp] theorem FileRepInfo.fileId_storeMap (r : FileRepInfo) (i : ℕ) (x : U32) :
    (r.storeMap i x).fileId = r.fileId := by
  unfold storeMap
  split_ifs <;> rfl

/-- The store at index 9 is one to `expired`. -/
theorem FileRepInfo.expired_storeMap (r : FileRepInfo) (i : ℕ) (x : U32) :
    (r.storeMap i x).expired = if i = 9 then x else r.expired := by
  unfold storeMap
  split_ifs <;> first | rfl | omega

/-- The loop reads and writes at the indices that it runs through. -/
theorem mem_trace_copyFrags {o : ByteOrder} {frags : ℕ → U32} {n i : ℕ} {r : FileRepInfo}
    {a : Access} : a ∈ (copyFrags o frags n i r).trace ↔
      ∃ j, i ≤ j ∧ j < i + n ∧ (a = .readFrag j ∨ a = .writeMap j) := by
  induction n generalizing i r with
  | zero =>
    refine iff_of_false (by simp [copyFrags]) ?_
    rintro ⟨j, hij, hji, -⟩
    omega
  | succ n ih =>
    simp only [copyFrags, Traced.trace_bind, Traced.trace_access, Traced.value_access,
      List.mem_append, List.mem_singleton, ih]
    constructor
    · rintro (h | h | ⟨j, hij, hji, h⟩)
      · exact ⟨i, le_rfl, by omega, Or.inl h⟩
      · exact ⟨i, le_rfl, by omega, Or.inr h⟩
      · exact ⟨j, by omega, by omega, h⟩
    · rintro ⟨j, hij, hji, h⟩
      rcases Nat.eq_or_lt_of_le hij with rfl | hlt
      · exact h.imp_right Or.inl
      · exact Or.inr (Or.inr ⟨j, hlt, by omega, h⟩)

/-- Stores inside the map leave `frag_count`. -/
theorem fragCount_copyFrags (o : ByteOrder) (frags : ℕ → U32) {n i : ℕ} (hi : i + n ≤ 8)
    (r : FileRepInfo) : (copyFrags o frags n i r).value.fragCount = r.fragCount := by
  induction n generalizing i r with
  | zero => rfl
  | succ n ih =>
    refine (ih (by omega) (r.storeMap i (hton o (frags i)))).trans ?_
    rw [FileRepInfo.storeMap, dif_pos (by omega)]

theorem fileId_copyFrags (o : ByteOrder) (frags : ℕ → U32) (n i : ℕ) (r : FileRepInfo) :
    (copyFrags o frags n i r).value.fileId = r.fileId := by
  induction n generalizing i r with
  | zero => rfl
  | succ n ih =>
    refine (ih (i + 1) _).trans ?_
    exact FileRepInfo.fileId_storeMap r i _

/-- The loop overwrites `expired` exactly when it gets past index 9. -/
theorem expired_copyFrags (o : ByteOrder) (frags : ℕ → U32) (n i : ℕ) (r : FileRepInfo) :
    (copyFrags o frags n i r).value.expired =
      if i ≤ 9 ∧ 9 < i + n then hton o (frags 9) else r.expired := by
  induction n generalizing i r with
  | zero => exact (if_neg (by omega)).symm
  | succ n ih =>
    refine (ih (i + 1) (r.storeMap i (hton o (frags i)))).trans ?_
    rw [FileRepInfo.expired_storeMap]
    by_cases hi : i = 9
    · subst hi
      rw [if_neg (by omega), if_pos rfl, if_pos (by omega)]
    · rw [if_neg hi]
      exact if_congr (by omega) rfl rfl

/-- The entry that `create_rinfo` fills in from the message `m` with the fragment ids `frags` behind
it.  The loop runs up to a signed `frag_count`. -/
def fillRinfo (o : ByteOrder) (map : Vector U32 8) (m : FileRep) (frags : ℕ → U32) :
    Traced Access FileRepInfo :=
  let fragCount := hton o (m.fragCount.setWidth 32)
  copyFrags o frags fragCount.toInt.toNat 0
    { fileId := hton o m.fileId, dstIp := hton o m.srcIp, dist := hton o m.dist, map := map,
      fragCount := fragCount, expired := 0 }

/-- The access stays inside a file reply of `size` octets, or inside the structure. -/
def Access.inside (size : ℕ) : Access → Bool
  | .readFrag i => FileRep.size + 4 * i + 4 ≤ size
  | .writeMap i | .readMap i => i < 12

/-- The fragment ids of a task. -/
def fragsOfTask (o : ByteOrder) (t : Task) (i : ℕ) : U32 :=
  (Octets.load o t.data (FileRep.size + 4 * i)).getD 0

def createRinfo (mem : Mem) (t : Task) (m : FileRep) (d : Daemon) : Option Daemon :=
  if mem.ok .rinfo 0 then
    let r := fillRinfo p.order mem.map m (fragsOfTask p.order t)
    if r.trace.all (Access.inside t.data.length) then some { d with rinfo := r.value :: d.rinfo }
    else none
  else some d

/-- The first reply for a file starts the timer of `process_flrep`. -/
def startTimer (mem : Mem) (clk : Clock) (fileId : U32) (d : Daemon) : Daemon :=
  match findRinfo d.rinfo fileId with
  | none =>
    updateTimerQueue p clk
      (insertTimer (mem.ok .task 0) clk .fragReqSend waitFileRepTime p.myIp fileId 0 d)
  | some _ => d

/-- The file id that `recv_flrep` works with is not converted. -/
def recvFlrep (mem : Mem) (clk : Clock) (t : Task) (d : Daemon) : Option Daemon :=
  if t.dstIp ≠ p.myIp then some d
  else do
    let m ← FileRep.load p.order t.data
    createRinfo p mem t m (startTimer p mem clk m.fileId d)

/-! ## Replying -/

/-- The octets of a file reply that lists `frags`. -/
def flrepOctets (srcIp dstIp fileId dist : U32) (frags : List U32) : List Byte :=
  FileRep.store p.order
    { fragCount := BitVec.ofNat 8 frags.length, srcIp := hton p.order srcIp,
      dstIp := hton p.order dstIp, fileId := hton p.order fileId, dist := hton p.order dist }
    (frags.map (hton p.order))

def genFlrep (ok : Bool) (srcIp dstIp fileId dist : U32) (d : Daemon) : Daemon :=
  let buf := heldFrags p.kval.toInt fileId d.ctable 0
  if buf.length = 0 then d
  else if ok then
    sendMessage dstIp (BitVec.ofNat 8 netDiameter) (flrepOctets p srcIp dstIp fileId dist buf) d
  else d

/-! ## Choosing fragments -/

/-- The scan for the entry of the file with the smallest distance; `best` is the position and the
distance of the one found so far. -/
def nearestFrom (fileId : U32) : List FileRepInfo → ℕ → Option (ℕ × U32) → Option ℕ
  | [], _, best => best.map Prod.fst
  | r :: l, i, none =>
    if r.live fileId then nearestFrom fileId l (i + 1) (some (i, r.dist))
    else nearestFrom fileId l (i + 1) none
  | r :: l, i, some (j, minDist) =>
    if r.live fileId ∧ r.dist < minDist then nearestFrom fileId l (i + 1) (some (i, r.dist))
    else nearestFrom fileId l (i + 1) (some (j, minDist))

def nearest (fileId : U32) (l : List FileRepInfo) : Option ℕ := nearestFrom fileId l 0 none

/-- The local variables of `process_flrep`; `count` is the length of `buf`. -/
structure Choice where
  buf : List U32
  need : ℤ
  energy : U32
  dst : List U32
  frag : List U32
  deriving DecidableEq

/-- The body of the innermost `if (!repeat)`; the arrays are written at `need - 1`. -/
def Choice.add (c : Choice) (minDist dstIp x : U32) : Option Choice :=
  if 0 < c.need ∧ c.need ≤ c.dst.length then
    some { buf := c.buf ++ [x], need := c.need - 1, energy := c.energy + minDist,
           dst := c.dst.set (c.need - 1).toNat dstIp, frag := c.frag.set (c.need - 1).toNat x }
  else none

/-- The loop over the fragments of one reply, from index `i` on, with `n` rounds to go. -/
def fillMap (kval : ℤ) (r : FileRepInfo) : ℕ → ℕ → Choice → Traced Access (Option Choice)
  | 0, _, c => pure (some c)
  | n + 1, i, c =>
    if (c.buf.length : ℤ) < kval then do
      match ← Traced.access (.readMap i) (r.loadMap i) with
      | none => pure none
      | some x =>
        match if x ∈ c.buf then some c else c.add r.dist r.dstIp x with
        | none => pure none
        | some c => fillMap kval r n (i + 1) c
    else pure (some c)

/-- The `while (need > 0)` loop.  The Boolean tells whether it came to its end; otherwise there were
not enough replies.  Each round marks an entry, so `fuel` rounds suffice for fewer entries
(`chooseFrags_spec`). -/
def chooseFrags (kval : ℤ) (fileId : U32) :
    ℕ → Choice → List FileRepInfo → Option (Bool × Choice × List FileRepInfo)
  | 0, _, _ => none
  | fuel + 1, c, l =>
    if 0 < c.need then
      match nearest fileId l with
      | none => some (false, c, l)
      | some i => do
        let r ← l[i]?
        let c ← (fillMap kval r r.fragCount.toNat 0 c).value
        chooseFrags kval fileId fuel c (l.modify i FileRepInfo.expire)
    else some (true, c, l)

/-- The loop that requests and counts the chosen fragments. -/
def requestFrags (mem : Mem) (clk : Clock) (fileId : U32) :
    List (U32 × U32) → ℕ → Daemon → Option Daemon
  | [], _, d => some d
  | (dstIp, fragId) :: l, i, d =>
    let d := genFrreq p (mem.ok .message (2 * i)) p.myIp dstIp fileId fragId d
    (if p.cachingOn then countFrreq p mem clk i dstIp fileId fragId id d else some d).bind
      (requestFrags mem clk fileId l (i + 1))

/-- The references that the first loop of `process_flrep` counts, for the fragments that it
finds. -/
def refLocal (fileId : U32) (buf : List U32) (d : Daemon) : Daemon :=
  if p.cachingOn then { d with ctable := buf.foldl (updateRefs · fileId) d.ctable } else d

/-- `process_flrep` with its return value. -/
def processFlrep (mem : Mem) (clk : Clock) (t : Task) (d : Daemon) : Option (ℤ × Daemon) := do
  let kval := p.kval.toInt
  let buf := heldFrags kval t.fileId d.ctable 0
  let need := kval - buf.length
  let dst := List.replicate need.toNat 0
  let (enough, c, l) ← chooseFrags kval t.fileId (d.rinfo.length + 1)
    { buf := buf, need := need, energy := 0, dst := dst, frag := dst } d.rinfo
  let d := { refLocal p t.fileId buf d with rinfo := l }
  if enough then
    let d := { d with cEnergy := d.cEnergy + c.energy, cSuccess := d.cSuccess + 1 }
    let d ← requestFrags p mem clk t.fileId (c.dst.zip c.frag) 0 d
    return (0, { d with rinfo := expireFile t.fileId d.rinfo })
  else return (1, d)

/-! ## What stays the same -/

theorem SameTables.genFlrep (type : TaskType) (ok : Bool) (srcIp dstIp fileId dist : U32)
    (d : Daemon) : SameTables type d (genFlrep p ok srcIp dstIp fileId dist d) := by
  unfold Caching.genFlrep
  simp only
  split
  · exact refl _ _
  · exact (sendMessage _ _ _ _ _).ite ok

theorem SameTables.requestFrags {mem : Mem} {clk : Clock} {fileId : U32} {l : List (U32 × U32)}
    {i : ℕ} {d e : Daemon} (h : requestFrags p mem clk fileId l i d = some e) :
    SameTables .addCacheSend d e := by
  induction l generalizing i d with
  | nil =>
    obtain rfl := Option.some.inj h
    exact refl _ _
  | cons x l ih =>
    obtain ⟨dstIp, fragId⟩ := x
    obtain ⟨c, hc, he⟩ := Option.bind_eq_some_iff.1 h
    have hsent := genFrreq p .addCacheSend (mem.ok .message (2 * i)) p.myIp dstIp fileId fragId d
    split at hc
    · exact hsent.trans ((countFrreq p (fun d => refl _ _) hc).trans (ih he))
    · obtain rfl := Option.some.inj hc
      exact hsent.trans (ih he)

theorem SameTables.startTimer (mem : Mem) (clk : Clock) (fileId : U32) (d : Daemon) :
    SameTables .fragReqSend d (startTimer p mem clk fileId d) := by
  unfold Caching.startTimer
  split
  · exact (insertTimer _ _ _ _ _ _ _ _).trans (updateTimerQueue _ _ _ _)
  · exact refl _ _

/-- `create_rinfo` adds at most an entry. -/
theorem createRinfo_cases {mem : Mem} {t : Task} {m : FileRep} {d e : Daemon}
    (h : createRinfo p mem t m d = some e) :
    (mem.ok .rinfo 0 = false ∧ e = d) ∨ (mem.ok .rinfo 0 = true ∧
      e = { d with
        rinfo := (fillRinfo p.order mem.map m (fragsOfTask p.order t)).value :: d.rinfo }) := by
  unfold createRinfo at h
  split at h
  · rename_i hok
    dsimp only at h
    split at h
    · exact Or.inr ⟨hok, (Option.some.inj h).symm⟩
    · cases h
  · rename_i hok
    exact Or.inl ⟨by simpa using hok, (Option.some.inj h).symm⟩

theorem ctable_recvFlrep {mem : Mem} {clk : Clock} {t : Task} {d e : Daemon}
    (h : recvFlrep p mem clk t d = some e) : e.ctable = d.ctable := by
  unfold recvFlrep at h
  split at h
  · rw [Option.some.inj h]
  · obtain ⟨m, -, hm⟩ := Option.bind_eq_some_iff.1 h
    have hs := (SameTables.startTimer p mem clk m.fileId d).ctable
    rcases createRinfo_cases p hm with ⟨-, rfl⟩ | ⟨-, rfl⟩
    · exact hs
    · exact hs

theorem map_key_foldl_updateRefs (fileId : U32) (buf : List U32) (t : List CacheTable) :
    (buf.foldl (updateRefs · fileId) t).map CacheTable.key = t.map CacheTable.key := by
  induction buf generalizing t with
  | nil => rfl
  | cons x buf ih => rw [List.foldl_cons, ih, map_key_updateRefs]

theorem refLocal_frame (fileId : U32) (buf : List U32) (d : Daemon) :
    ∃ ct, refLocal p fileId buf d = { d with ctable := ct } ∧
      ct.map CacheTable.key = d.ctable.map CacheTable.key := by
  unfold refLocal
  split
  · exact ⟨_, rfl, map_key_foldl_updateRefs _ _ _⟩
  · exact ⟨d.ctable, rfl, rfl⟩

/-- `process_flrep` either requests the chosen fragments, and then marks all entries of the file, or
gives up with the entries that it has looked at marked. -/
theorem processFlrep_cases {mem : Mem} {clk : Clock} {t : Task} {d e : Daemon} {r : ℤ}
    (h : processFlrep p mem clk t d = some (r, e)) :
    ∃ (buf : List U32) (ct : List CacheTable) (enough : Bool) (c : Choice) (l : List FileRepInfo),
      buf = heldFrags p.kval.toInt t.fileId d.ctable 0 ∧
      ct.map CacheTable.key = d.ctable.map CacheTable.key ∧
      chooseFrags p.kval.toInt t.fileId (d.rinfo.length + 1)
          { buf := buf, need := p.kval.toInt - buf.length, energy := 0,
            dst := List.replicate (p.kval.toInt - buf.length).toNat 0,
            frag := List.replicate (p.kval.toInt - buf.length).toNat 0 } d.rinfo =
        some (enough, c, l) ∧
      ((enough = true ∧ r = 0 ∧ ∃ d₂, requestFrags p mem clk t.fileId (c.dst.zip c.frag) 0
          { d with
            ctable := ct, rinfo := l, cEnergy := d.cEnergy + c.energy,
              cSuccess := d.cSuccess + 1 } =
            some d₂ ∧ e = { d₂ with rinfo := expireFile t.fileId d₂.rinfo }) ∨
        (enough = false ∧ r = 1 ∧ e = { d with ctable := ct, rinfo := l })) := by
  obtain ⟨⟨enough, c, l⟩, hc, h⟩ := Option.bind_eq_some_iff.1 h
  obtain ⟨ct, hct, hkey⟩ :=
    refLocal_frame p t.fileId (heldFrags p.kval.toInt t.fileId d.ctable 0) d
  refine ⟨_, ct, enough, c, l, rfl, hkey, hc, ?_⟩
  dsimp only at h
  rw [hct] at h
  cases enough with
  | true =>
    obtain ⟨d₂, hd₂, he⟩ := Option.bind_eq_some_iff.1 h
    obtain ⟨rfl, rfl⟩ := Prod.mk.inj (Option.some.inj he)
    exact Or.inl ⟨rfl, rfl, d₂, hd₂, rfl⟩
  | false =>
    obtain ⟨rfl, rfl⟩ := Prod.mk.inj (Option.some.inj h)
    exact Or.inr ⟨rfl, rfl, rfl⟩

theorem map_key_processFlrep {mem : Mem} {clk : Clock} {t : Task} {d e : Daemon} {r : ℤ}
    (h : processFlrep p mem clk t d = some (r, e)) :
    e.ctable.map CacheTable.key = d.ctable.map CacheTable.key := by
  obtain ⟨-, ct, -, c, l, -, hkey, -, ⟨-, -, d₂, hd₂, rfl⟩ | ⟨-, -, rfl⟩⟩ := processFlrep_cases p h
  · rw [← hkey]
    exact congrArg _ (SameTables.requestFrags p hd₂).ctable
  · exact hkey

end MobileCloudCaching.Caching
