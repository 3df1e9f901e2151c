import MobileCloudCaching.Caching.Exchange
import MobileCloudCaching.Caching.ReqList

/-!
# Fragment requests (`cFragReq.c`)

A request that is only passing through is counted.  When the counter reaches `THRESHOLD`, the daemon
itself sends the request on, as a `FRAG_REQ_FWD`, and starts an exchange for the fragment.
-/

namespace MobileCloudCaching.Caching

open Octets

variable (p : Params)

def convertFrreqToHost (o : ByteOrder) (m : FragReq) : FragReq where
  srcIp := hton o m.srcIp
  dstIp := hton o m.dstIp
  fileId := hton o m.fileId
  fragId := hton o m.fragId

/-- The octets of a fragment request, as `gen_frreq` and `gen_frreq_by_task` fill them in. -/
def frreqOctets (type : Byte) (srcIp dstIp fileId fragId : U32) : List Byte :=
  FragReq.store p.order type { srcIp := hton p.order srcIp, dstIp := hton p.order dstIp,
                               fileId := hton p.order fileId, fragId := hton p.order fragId }

def genFrreq (ok : Bool) (srcIp dstIp fileId fragId : U32) (d : Daemon) : Daemon :=
  if ok then
    sendMessage dstIp (BitVec.ofNat 8 netDiameter)
      (frreqOctets p fragReqOriMessage srcIp dstIp fileId fragId) d
  else d

/-- `gen_frreq_by_task`.  `base` is the message in the task, which is in host order by now; the
address handed to the socket is the field that has just been filled in. -/
def genFrreqByTask (ok : Bool) (t : Task) (base : FragReq) (d : Daemon) : Daemon :=
  if ok then
    sendMessage (hton p.order base.dstIp) (t.ttl - 1)
      (frreqOctets p fragReqFwdMessage base.srcIp base.dstIp base.fileId base.fragId) d
  else d

/-- The counting that `recv_frreq_ori` and `process_flrep` share.  `forward` is what the former does
between `flush_count` and `gen_exchReq`.  Without memory for a counter, `update_count` goes through
a null pointer. -/
def countFrreq (mem : Mem) (clk : Clock) (i : ℕ) (dstIp fileId fragId : U32)
    (forward : Daemon → Daemon) (d : Daemon) : Option Daemon :=
  match findCreq d.crlist fileId fragId with
  | none =>
    if mem.ok .creq i then some (updateCount fileId fragId (createCreq fileId fragId d)) else none
  | some c =>
    if reachThreshold p c.count then
      let d := forward (flushCount fileId fragId d)
      let d := genExchReq p (mem.ok .message (2 * i + 1)) p.myIp dstIp fileId fragId d
      let d := insertTimer (mem.ok .task i) clk .addCacheSend waitExchRepTime dstIp fileId fragId d
      some (updateTimerQueue p clk d)
    else some (updateCount fileId fragId d)

def recvFrreqOri (mem : Mem) (clk : Clock) (t : Task) (d : Daemon) : Option Daemon := do
  let m := convertFrreqToHost p.order (← FragReq.load p.order t.data)
  if t.dstIp = p.myIp then
    return if p.cachingOn then updateRef m.fileId m.fragId d else d
  else if p.cachingOn then
    countFrreq p mem clk 0 t.dstIp m.fileId m.fragId (genFrreqByTask p (mem.ok .message 0) t m) d
  else return d

def recvFrreqFwd (t : Task) (d : Daemon) : Option Daemon := do
  let m := convertFrreqToHost p.order (← FragReq.load p.order t.data)
  if t.dstIp = p.myIp then return updateRef m.fileId m.fragId d
  else return flushCount m.fileId m.fragId d

variable {p}

/-- A request is counted unless there is no memory for a counter that it needs. -/
theorem isSome_countFrreq_iff {mem : Mem} {clk : Clock} {i : ℕ} {dstIp fileId fragId : U32}
    {forward : Daemon → Daemon} {d : Daemon} :
    (countFrreq p mem clk i dstIp fileId fragId forward d).isSome = true ↔
      (counter d.crlist (fileId, fragId) = none → mem.ok .creq i = true) := by
  unfold countFrreq counter
  cases findCreq d.crlist fileId fragId with
  | none => cases mem.ok .creq i <;> simp
  | some c =>
    refine iff_of_true ?_ fun hnone => by cases hnone
    dsimp only
    split <;> rfl

variable (p)

/-! ## What stays the same -/

namespace SameTables

theorem genFrreq (type : TaskType) (ok : Bool) (srcIp dstIp fileId fragId : U32) (d : Daemon) :
    SameTables type d (genFrreq p ok srcIp dstIp fileId fragId d) :=
  (sendMessage _ _ _ _ _).ite ok

theorem genFrreqByTask (type : TaskType) (ok : Bool) (t : Task) (base : FragReq) (d : Daemon) :
    SameTables type d (genFrreqByTask p ok t base d) :=
  (sendMessage _ _ _ _ _).ite ok

theorem setCount (type : TaskType) (fileId fragId : U32) (f : U32 → U32) (d : Daemon) :
    SameTables type d (setCount fileId fragId f d) :=
  ⟨rfl, rfl, rfl, rfl, rfl, rfl, rfl, rfl, rfl, MoreTimers.refl _ _⟩

theorem createCreq (type : TaskType) (fileId fragId : U32) (d : Daemon) :
    SameTables type d (createCreq fileId fragId d) :=
  ⟨rfl, rfl, rfl, rfl, rfl, rfl, rfl, rfl, rfl, MoreTimers.refl _ _⟩

/-- Counting starts timers for an exchange only. -/
theorem countFrreq {mem : Mem} {clk : Clock} {i : ℕ} {dstIp fileId fragId : U32}
    {forward : Daemon → Daemon} (hforward : ∀ d, SameTables .addCacheSend d (forward d))
    {d e : Daemon} (h : countFrreq p mem clk i dstIp fileId fragId forward d = some e) :
    SameTables .addCacheSend d e := by
  unfold Caching.countFrreq at h
  split at h
  · split at h
    · obtain rfl := Option.some.inj h
      exact (createCreq _ _ _ _).trans (setCount _ _ _ _ _)
    · cases h
  · split at h
    · obtain rfl := Option.some.inj h
      exact (setCount _ fileId fragId (fun _ => 0) d).trans <| (hforward _).trans <|
        (genExchReq p _ _ _ _ _ _ _).trans <| (insertTimer _ _ _ _ _ _ _ _).trans <|
        updateTimerQueue _ _ _ _
    · obtain rfl := Option.some.inj h
      exact setCount _ _ _ _ _

end SameTables

/-- A request that the node receives counts a reference, or is counted, or nothing happens. -/
theorem recvFrreqOri_cases {mem : Mem} {clk : Clock} {t : Task} {d e : Daemon}
    (h : recvFrreqOri p mem clk t d = some e) :
    (∃ fileId fragId, e = updateRef fileId fragId d) ∨ SameTables .addCacheSend d e := by
  obtain ⟨m, -, hm⟩ := Option.bind_eq_some_iff.1 h
  split at hm
  · obtain rfl := Option.some.inj hm
    split
    · exact Or.inl ⟨_, _, rfl⟩
    · exact Or.inr (SameTables.refl _ _)
  · split at hm
    · exact Or.inr (SameTables.countFrreq p (SameTables.genFrreqByTask p _ _ _ _) hm)
    · obtain rfl := Option.some.inj hm
      exact Or.inr (SameTables.refl _ _)

theorem recvFrreqFwd_cases {t : Task} {d e : Daemon} (h : recvFrreqFwd p t d = some e) :
    (∃ fileId fragId, e = updateRef fileId fragId d) ∨ SameTables .addCacheSend d e := by
  obtain ⟨m, -, hm⟩ := Option.bind_eq_some_iff.1 h
  split at hm
  · exact Or.inl ⟨_, _, (Option.some.inj hm).symm⟩
  · obtain rfl := Option.some.inj hm
    exact Or.inr (SameTables.setCount _ _ _ _ _)

end MobileCloudCaching.Caching
