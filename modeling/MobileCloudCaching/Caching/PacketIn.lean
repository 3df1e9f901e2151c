import MobileCloudCaching.Caching.FileReq

/-!
# The netfilter hook (`cPacketIn.c`)

`packet_in` checks a packet for the daemon, queues it as a task and decides whether
the packet itself goes on.  `input_handler` also counts what the routing protocols
send; its walk over the messages of an OLSR packet is bounded here by `fuel`, and
records the offsets at which it reads headers.
-/

namespace MobileCloudCaching.Caching

open Octets

variable (p : Params)

/-! ## Packets of the daemon -/

/-- An octet of a message, recorded by its offset. -/
def readOctet (data : ℕ → Byte) (i : ℕ) : Traced ℕ Byte := Traced.access i (data i)

def readWord (o : ByteOrder) (data : ℕ → Byte) (i : ℕ) : Traced ℕ U32 := do
  return hton o (be32 (← readOctet data i) (← readOctet data (i + 1)) (← readOctet data (i + 2))
    (← readOctet data (i + 3)))

/-- `fOverhead += numbytes / 4` -/
def addFOverhead (numbytes : ℤ) (d : Daemon) : Daemon :=
  { d with fOverhead := d.fOverhead + BitVec.ofInt 32 (numbytes.tdiv 4) }

/-- `cOverhead += numbytes / 4` -/
def addCOverhead (numbytes : ℤ) (d : Daemon) : Daemon :=
  { d with cOverhead := d.cOverhead + BitVec.ofInt 32 (numbytes.tdiv 4) }

/-- A case of `valid_cache_packet` that compares the length only. -/
def validSize (numbytes : ℤ) (size : ℕ) (add : ℤ → Daemon → Daemon) (d : Daemon) : Bool × Daemon :=
  if numbytes = size then (true, add numbytes d) else (false, d)

def validCachePacket (numbytes : ℤ) (type : Byte) (data : ℕ → Byte) (d : Daemon) :
    Traced ℕ (Bool × Daemon) :=
  if type = fileReqMessage then
    if numbytes = FileReq.size then do
      let srcIp ← readWord p.order data 4
      return (hton p.order srcIp != p.myIp, addFOverhead numbytes d)
    else return (false, d)
  else if type = fileRepMessage then do
    let fragCount ← readOctet data 3
    return validSize numbytes (FileRep.size + 4 * fragCount.toNat) addFOverhead d
  else if type = fragReqOriMessage then return validSize numbytes FragReq.size addFOverhead d
  else if type = fragReqFwdMessage then return validSize numbytes FragReq.size addFOverhead d
  else if type = exchangeReqMessage then return validSize numbytes ExchReq.size addCOverhead d
  else if type = exchangeRepMessage then return validSize numbytes ExchRep.size addCOverhead d
  else if type = addCacheMessage then return validSize numbytes AddCache.size addCOverhead d
  else return (false, d)

/-- The first part of `packet_in`: a valid packet is queued.  The Boolean tells whether it was
valid. -/
def packetInQueue (mem : Mem) (clk : Clock) (skb : SkBuff) (d : Daemon) : Bool × Daemon :=
  let (valid, d) := (validCachePacket p skb.numbytes (skb.message 0) skb.message d).value
  match valid, TaskType.ofMessage (skb.message 0) with
  | true, some type => (true, insertTask p mem clk type skb d)
  | _, _ => (false, d)

/-- The second part of `packet_in`: the file id and the fragment id that it looks up are single
octets of the packet, cast to `u_int32_t`. -/
def packetInVerdict (skb : SkBuff) (d : Daemon) : Verdict :=
  if p.cachingOn ∧ skb.message 0 = fragReqOriMessage then
    match findCreq d.crlist ((skb.message 12).setWidth 32)
      ((skb.message 16).setWidth 32) with
    | some c => if reachThreshold p c.count then .drop else .accept
    | none => .accept
  else .accept

def packetIn (mem : Mem) (clk : Clock) (skb : SkBuff) (d : Daemon) : Verdict × Daemon :=
  match packetInQueue p mem clk skb d with
  | (true, d) => (packetInVerdict p skb d, d)
  | (false, d) => (.drop, d)

/-- Checking a packet only counts its octets. -/
theorem validCachePacket_frame (numbytes : ℤ) (type : Byte) (data : ℕ → Byte) (d : Daemon) :
    ∃ f c, (validCachePacket p numbytes type data d).value.2 =
      { d with fOverhead := f, cOverhead := c } := by
  have hsize : ∀ (size : ℕ) (add : ℤ → Daemon → Daemon),
      (∀ n, ∃ f c, add n d = { d with fOverhead := f, cOverhead := c }) →
      ∃ f c, (validSize numbytes size add d).2 = { d with fOverhead := f, cOverhead := c } := by
    intro size add hadd
    unfold validSize
    split
    · exact hadd numbytes
    · exact ⟨_, _, rfl⟩
  have hf : ∀ n, ∃ f c, addFOverhead n d = { d with fOverhead := f, cOverhead := c } :=
    fun n => ⟨_, _, rfl⟩
  have hc : ∀ n, ∃ f c, addCOverhead n d = { d with fOverhead := f, cOverhead := c } :=
    fun n => ⟨_, _, rfl⟩
  unfold validCachePacket
  split_ifs
  · exact ⟨_, _, rfl⟩
  · exact ⟨_, _, rfl⟩
  · exact hsize _ _ hf
  · exact hsize _ _ hf
  · exact hsize _ _ hf
  · exact hsize _ _ hc
  · exact hsize _ _ hc
  · exact hsize _ _ hc
  · exact ⟨_, _, rfl⟩

/-- The octets that the check of a packet reads. -/
theorem trace_validCachePacket (numbytes : ℤ) (type : Byte) (data : ℕ → Byte) (d : Daemon) :
    (validCachePacket p numbytes type data d).trace =
      if type = fileReqMessage ∧ numbytes = FileReq.size then [4, 5, 6, 7]
      else if type = fileRepMessage then [3] else [] := by
  unfold validCachePacket
  by_cases hreq : type = fileReqMessage
  · have hrep : type ≠ fileRepMessage := by rw [hreq]; decide
    by_cases hsize : numbytes = FileReq.size
    · simp [hreq, hsize, readWord, readOctet]
    · simp [hreq, hsize, show fileReqMessage ≠ fileRepMessage by decide]
  · by_cases hrep : type = fileRepMessage
    · simp [hrep, readOctet, show fileRepMessage ≠ fileReqMessage by decide]
    · simp only [hreq, hrep, if_false, false_and]
      split_ifs <;> rfl

/-- A packet that is not valid is only counted, and a valid one also becomes a task. -/
theorem packetInQueue_cases (mem : Mem) (clk : Clock) (skb : SkBuff) (d : Daemon) :
    ∃ f c d', d' = { d with fOverhead := f, cOverhead := c } ∧
      (packetInQueue p mem clk skb d = (false, d') ∨
        ∃ type, TaskType.ofMessage (skb.message 0) = some type ∧
          (validCachePacket p skb.numbytes (skb.message 0) skb.message d).value.1 = true ∧
          packetInQueue p mem clk skb d = (true, insertTask p mem clk type skb d')) := by
  obtain ⟨f, c, h⟩ := validCachePacket_frame p skb.numbytes (skb.message 0) skb.message d
  refine ⟨f, c, _, rfl, ?_⟩
  unfold packetInQueue
  cases hv : (validCachePacket p skb.numbytes (skb.message 0) skb.message d).value with
  | mk valid d' =>
    rw [hv] at h
    obtain rfl : d' = _ := h
    cases valid with
    | false => exact Or.inl rfl
    | true =>
      cases ht : TaskType.ofMessage (skb.message 0) with
      | none => exact Or.inl rfl
      | some type => exact Or.inr ⟨type, rfl, rfl, rfl⟩

/-- Packets make tasks of the first seven types only. -/
theorem ofMessage_eq_some {b : Byte} {type : TaskType} (h : TaskType.ofMessage b = some type) :
    type ≠ .fragReqSend ∧ type ≠ .addCacheSend ∧ type ≠ .cleanUp := by
  unfold TaskType.ofMessage at h
  split_ifs at h <;> obtain rfl := Option.some.inj h <;> decide

/-! ## Packets of the routing protocols -/

def lqHelloMessage : Byte := 201
def lqTcMessage : Byte := 202

/-- `msgsize`, of the message at offset `i`. -/
def msgSize (data : ℕ → Byte) (i : ℕ) : ℕ := (data (i + 2)).toNat * 256 + (data (i + 3)).toNat

/-- The counting of one message in the body of the loop. -/
def countMessage (type : Byte) (msgsize : ℕ) (d : Daemon) : Daemon :=
  if type = lqHelloMessage then
    { d with rtHelloC := d.rtHelloC + 1, rtHello := d.rtHello + BitVec.ofNat 32 (msgsize / 4) }
  else if type = lqTcMessage then { d with rtTc := d.rtTc + BitVec.ofNat 32 (msgsize / 4) }
  else d

/-- The message loop, at the message at offset `m` with `count` octets to go; `none` when `fuel`
does not suffice.  The trace lists the offsets of the headers that are read. -/
def olsrWalk (data : ℕ → Byte) : ℕ → ℕ → U32 → Daemon → Traced ℕ (Option Daemon)
  | 0, _, count, d => pure (if 0 < count then none else some d)
  | fuel + 1, m, count, d =>
    if 0 < count then do
      let msgsize ← Traced.access m (msgSize data m)
      olsrWalk data fuel (m + msgsize) (count - BitVec.ofNat 32 msgsize)
        (countMessage (data m) msgsize d)
    else pure (some d)

/-- The branch of `input_handler` for OLSR packets; `none` when `fuel` does not suffice. -/
def olsrIn (fuel : ℕ) (skb : SkBuff) (d : Daemon) : Traced ℕ (Option (Verdict × Daemon)) :=
  let size := skb.numbytes
  let count := BitVec.ofInt 32 (size - 4)
  if count < 4 ∨ skb.ntohs SkBuff.startPoint ≠ size % 2 ^ 16 then pure (some (.drop, d))
  else do
    let d ← olsrWalk skb.message fuel 4 count { d with rtHeader := d.rtHeader + 1 }
    return d.map fun d => (.accept, d)

def rrepMessage : Byte := 2
def rrepSize : ℕ := 20

/-- The branch of `input_handler` for AODV packets. -/
def aodvIn (skb : SkBuff) (d : Daemon) : Daemon :=
  let words := BitVec.ofInt 32 (skb.numbytes.tdiv 4)
  if skb.message 0 = rrepMessage ∧ skb.numbytes = rrepSize ∧
      skb.word p.order (SkBuff.startPoint + 12) = skb.word p.order (SkBuff.startPoint + 4) then
    { d with aodvHello := d.aodvHello + words }
  else { d with aodvElse := d.aodvElse + words }

def inputHandler (mem : Mem) (clk : Clock) (fuel : ℕ) (skb : SkBuff) (d : Daemon) :
    Traced ℕ (Option (Verdict × Daemon)) :=
  if skb.udpDest = cachePort ∧ skb.isIp then
    if p.devSaddr ≠ skb.saddr p.order then pure (some (packetIn p mem clk skb d))
    else pure (some (.drop, d))
  else if skb.udpDest = olsrPort ∧ skb.isIp then
    if p.devSaddr ≠ skb.saddr p.order then olsrIn fuel skb d else pure (some (.accept, d))
  else if skb.udpDest = aodvPort ∧ skb.isIp then
    if p.devSaddr ≠ skb.saddr p.order then pure (some (.accept, aodvIn p skb d))
    else pure (some (.accept, d))
  else pure (some (.accept, d))

end MobileCloudCaching.Caching
