import MobileCloudCaching.Caching.FileRep

/-!
# File requests (`cFileReq.c`, `cFlood.c`)

A request is flooded: a node handles it, and sends it on, unless the pair of requester and sequence
number is on the flood id list, whose entries live for `FILE_REQUEST_LIFETIME`.
-/

namespace MobileCloudCaching.Caching

open Octets

variable (p : Params)

/-! ## Flood ids -/

/-- `find_flood_id` gives up at the first entry that has expired. -/
def findFloodId (clk : Clock) (srcIp id : U32) : List FloodId → Option FloodId
  | [] => none
  | e :: l =>
    if timeBefore e.lifetime clk.now then none
    else if srcIp = e.srcIp ∧ id = e.id then some e
    else findFloodId clk srcIp id l

def insertFloodId (ok : Bool) (srcIp dstIp id : U32) (lt : ℕ) (d : Daemon) : Daemon :=
  if ok then
    { d with floodIdQueue :=
        { srcIp := srcIp, dstIp := dstIp, id := id, lifetime := lt } :: d.floodIdQueue }
  else d

def flushFloodIdQueue (mem : Mem) (clk : Clock) (d : Daemon) : Daemon :=
  updateTimerQueue p clk
    (insertTimer (mem.ok .task 0) clk .cleanUp flushInterval p.myIp 0 0
      { d with floodIdQueue := d.floodIdQueue.filter fun e => !timeBefore e.lifetime clk.now })

/-! ## File requests -/

/-- The octets that `gen_flreq` of simpleFS broadcasts; the addresses go into the message as they
are. -/
def flreqOctets (o : ByteOrder) (srcIp fileId seq : U32) : List Byte :=
  FileReq.store o { srcIp := srcIp, dstIp := broadcastIp, fileId := hton o fileId,
                    seq := hton o seq, metric := hton o 0 }

def convertFlreqToHost (o : ByteOrder) (m : FileReq) : FileReq where
  srcIp := hton o m.srcIp
  dstIp := hton o m.dstIp
  fileId := hton o m.fileId
  seq := hton o m.seq
  metric := hton o m.metric

/-- `ntohl` and `htonl` are the same function. -/
def convertFlreqToNetwork : ByteOrder → FileReq → FileReq := convertFlreqToHost

/-- `forward_flreq`: the octets of the task go out again, with the fields of `m`. -/
def forwardFlreq (t : Task) (m : FileReq) (d : Daemon) : Daemon :=
  let m := convertFlreqToNetwork p.order m
  localBroadcast (t.ttl - 1)
    (t.data.take 4 ++ storeAll p.order [m.srcIp, m.dstIp, m.fileId, m.seq, m.metric]) d

/-- The rest of `recv_flreq` for a request that is not on the flood id list. -/
def acceptFlreq (mem : Mem) (clk : Clock) (t : Task) (m : FileReq) (d : Daemon) : Daemon :=
  let m := { m with metric := m.metric + 1 }
  let d := insertFloodId (mem.ok .floodId 0) m.srcIp m.dstIp m.seq (clk.now + fileRequestLifetime) d
  forwardFlreq p t m (genFlrep p (mem.ok .message 0) p.myIp m.srcIp m.fileId m.metric d)

def recvFlreq (mem : Mem) (clk : Clock) (t : Task) (d : Daemon) : Option Daemon := do
  let m := convertFlreqToHost p.order (← FileReq.load p.order t.data)
  if t.ttl ≤ 1 then return d
  else if (findFloodId clk m.srcIp m.seq d.floodIdQueue).isSome then return d
  else return acceptFlreq p mem clk t m d

theorem recvFlreq_cases {mem : Mem} {clk : Clock} {t : Task} {d e : Daemon}
    (h : recvFlreq p mem clk t d = some e) :
    ∃ m, FileReq.load p.order t.data = some m ∧
      (e = d ∨ ∃ m', m' = convertFlreqToHost p.order m ∧ 1 < t.ttl ∧
        findFloodId clk m'.srcIp m'.seq d.floodIdQueue = none ∧
        e = acceptFlreq p mem clk t m' d) := by
  obtain ⟨m, hm, h⟩ := Option.bind_eq_some_iff.1 h
  refine ⟨m, hm, ?_⟩
  dsimp only at h
  split at h
  · exact Or.inl (Option.some.inj h).symm
  · rename_i httl
    split at h
    · exact Or.inl (Option.some.inj h).symm
    · rename_i hfind
      exact Or.inr ⟨_, rfl, BitVec.not_le.1 httl, by simpa using hfind, (Option.some.inj h).symm⟩

theorem ctable_acceptFlreq (mem : Mem) (clk : Clock) (t : Task) (m : FileReq) (d : Daemon) :
    (acceptFlreq p mem clk t m d).ctable = d.ctable := by
  refine (SameTables.localBroadcast .cleanUp _ _ _).ctable.trans
    ((SameTables.genFlrep p .cleanUp _ _ _ _ _ _).ctable.trans ?_)
  cases mem.ok .floodId 0 <;> rfl

end MobileCloudCaching.Caching
