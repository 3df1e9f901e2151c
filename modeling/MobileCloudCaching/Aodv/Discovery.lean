import MobileCloudCaching.Aodv.Neigh

/-!
# Route discovery (`rreq.c`, `rrep.c`, `packet_out.c`)

A packet without a valid route is queued, and a request for its destination is flooded; a
request that gets no answer is repeated `RREQ_RETRIES` times.  A reply travels back along
the routes that the request has left.
-/

namespace MobileCloudCaching.Aodv

variable (p : Params)

/-! ## Replies -/

/-- `send_rrep` -/
def sendRrep (mem : Mem) (clk : Clock) (srcRoute dstRoute : Route) (s : Router) : Router :=
  if mem .rrep 0 then
    let lifetime := if dstRoute.selfRoute then BitVec.ofNat 32 myRouteTimeout
      else BitVec.ofInt 32 (dstRoute.lifetime - clk.now)
    sendMessage p clk srcRoute.nextHop (BitVec.ofNat 8 netDiameter)
      (.rrep { metric := dstRoute.metric, dstIp := dstRoute.ip, dstSeq := dstRoute.seq,
               srcIp := srcRoute.ip, lifetime := lifetime }) s
  else s

def genRrep (mem : Mem) (clk : Clock) (srcIp dstIp : U32) (s : Router) : Option Router :=
  let (srcRoute, s) := findAodvRoute clk srcIp s
  match srcRoute with
  | none => some s
  | some srcRoute =>
    let (dstRoute, s) := findAodvRoute clk dstIp s
    match dstRoute with
    | none => some s
    | some dstRoute => do
      let srcRoute ← routeAt srcRoute.ptr s
      return sendRrep p mem clk srcRoute dstRoute s

/-- `check_rrep`, for a reply that is no hello. -/
def checkRrep (clk : Clock) (t : Task) (m : Rrep) (s : Router) : Bool × Router :=
  if !validAodvNeigh clk t.srcIp s then (false, s) else (true, deleteTimer m.dstIp .resendRreq s)

/-- The call of `update_aodv_route` that a reply makes. -/
def Rrep.update (t : Task) (m : Rrep) : Update where
  ip := m.dstIp
  nextHop := t.srcIp
  metric := m.metric + 1
  seq := m.dstSeq
  dev := t.dev

/-- The last part of `recv_rrep`: the reply goes on towards the node that asked. -/
def forwardRrep (clk : Clock) (m : Rrep) (s : Router) : Router :=
  let (sendRoute, s) := findAodvRoute clk m.srcIp s
  match sendRoute with
  | none => s
  | some r =>
    if r.selfRoute then s
    else
      sendMessage p clk r.nextHop (BitVec.ofNat 8 netDiameter)
        (.rrep { m with metric := m.metric + 1 }) s

/-- The rest of `recv_rrep` for a reply that has passed `check_rrep`. -/
def acceptRrep (mem : Mem) (clk : Clock) (t : Task) (m : Rrep) (s : Router) : Option Router :=
  (updateAodvRoute (mem .route 0) clk (m.update t) s).map (forwardRrep p clk m)

def recvRrep (mem : Mem) (clk : Clock) (t : Task) (m : Rrep) (s : Router) : Option Router :=
  if m.srcIp = m.dstIp then recvHello mem clk t m { s with overhead := s.overhead - 1 }
  else
    match checkRrep clk t m s with
    | (true, s) => acceptRrep p mem clk t m s
    | (false, s) => some s

/-! ## Requests -/

/-- `check_rreq` -/
def checkRreq (clk : Clock) (m : Rreq) (lastHopIp : U32) (s : Router) : Bool × Router :=
  if (findFloodId clk m.srcIp m.rreqId s.floodIdQueue).isSome then (false, s)
  else
    let (_, s) := findAodvRoute clk m.srcIp s
    (validAodvNeigh clk lastHopIp s, s)

/-- The route that a gateway makes for an address outside the AODV subnet. -/
def gatewayRoute (clk : Clock) (ip : U32) (myRoute r : Route) : Route :=
  { r with
    seq := myRoute.seq, nextHop := ip, metric := 1, dev := myRoute.dev,
    lifetime := clk.now + activeRouteTimeout, routeValid := true }

/-- `create_aodv_route` in `reply_to_rreq`, and the writes that follow it; without
memory it goes through a null pointer. -/
def createGatewayRoute (ok : Bool) (clk : Clock) (ip : U32) (s : Router) : Option Router := do
  match ← createAodvRoute ok ip s with
  | (some r, s) => return putRoute (gatewayRoute clk ip (← routeAt s.myRoute s) r) s
  | (none, _) => none

/-- `reply_to_rreq`: whether to reply. -/
def replyToRreq (mem : Mem) (clk : Clock) (m : Rreq) (s : Router) : Option (Bool × Router) :=
  let (dstRoute, s) := findAodvRoute clk m.dstIp s
  if !aodvSubnetTest p m.dstIp then
    if p.gateway then
      match dstRoute with
      | none => (createGatewayRoute (mem .route 1) clk m.dstIp s).map fun s => (true, s)
      | some r =>
        some (true,
          putRoute { r with lifetime := clk.now + activeRouteTimeout, routeValid := true } s)
    else
      match dstRoute with
      | none => some (false, s)
      | some r =>
        -- the address belongs to a local subnet
        if r.netmask ≠ broadcastIp then
          (createGatewayRoute (mem .route 1) clk m.dstIp s).map fun s => (true, s)
        else some (false, s)
  else
    match dstRoute with
    | none => some (false, s)
    | some r =>
      if r.selfRoute then
        some (true,
          if seqLessOrEqual r.seq m.dstSeq then putRoute { r with seq := m.dstSeq + 1 } s else s)
      else some (false, s)

/-- The call of `update_aodv_route` that a request makes. -/
def Rreq.update (t : Task) (m : Rreq) : Update where
  ip := m.srcIp
  nextHop := t.srcIp
  metric := m.metric + 1
  seq := m.srcSeq
  dev := t.dev

/-- The last part of `recv_rreq`: a reply, or the request goes on. -/
def answerRreq (mem : Mem) (clk : Clock) (t : Task) (m : Rreq) (s : Router) : Option Router := do
  match ← replyToRreq p mem clk m s with
  | (true, s) => genRrep p mem clk m.srcIp m.dstIp s
  | (false, s) => some (localBroadcast (t.ttl - 1) (.rreq { m with metric := m.metric + 1 }) s)

/-- The rest of `recv_rreq` for a request that has passed `check_rreq`. -/
def acceptRreq (mem : Mem) (clk : Clock) (t : Task) (m : Rreq) (s : Router) : Option Router := do
  let s ← updateAodvRoute (mem .route 0) clk (m.update t) s
  answerRreq p mem clk t m
    (if mem .floodId 0 then insertFloodId m.srcIp m.dstIp m.rreqId (clk.now + pathDiscoveryTime) s
    else s)

def recvRreq (mem : Mem) (clk : Clock) (t : Task) (m : Rreq) (s : Router) : Option Router :=
  if t.ttl ≤ 1 then some s
  else
    match checkRreq clk m t.srcIp s with
    | (true, s) => acceptRreq p mem clk t m s
    | (false, s) => some s

/-- The common part of `gen_rreq` and `resend_rreq`: the request is numbered, noted and flooded, and
comes up again after a while, `retries` times more. -/
def broadcastRreq (mem : Mem) (clk : Clock) (srcIp dstIp : U32) (retries : ℕ)
    (s : Router) : Router :=
  let (dstRoute, s) := findAodvRoute clk dstIp s
  let dstSeq := match dstRoute with
    | none => 0
    | some r => r.seq
  let (srcRoute, s) := findAodvRoute clk srcIp s
  match srcRoute with
  | none => s
  | some r =>
    let r := { r with rreqId := r.rreqId + 1, seq := r.seq + 1 }
    let s := putRoute r s
    if mem .floodId 0 then
      localBroadcast (BitVec.ofNat 8 netDiameter)
        (.rreq { metric := 0, rreqId := r.rreqId, dstIp := dstIp, dstSeq := dstSeq, srcIp := srcIp,
                 srcSeq := r.seq })
        (insertRreqTimer (mem .task 0) clk srcIp dstIp retries
          (insertFloodId srcIp dstIp r.rreqId (clk.now + pathDiscoveryTime) s))
    else s

/-- `gen_rreq`, which allocates the message twice. -/
def genRreq (mem : Mem) (clk : Clock) (srcIp dstIp : U32) (s : Router) : Router :=
  if (findTimer dstIp .resendRreq s).isSome then s
  else if mem .rreq 0 && mem .rreq 1 then broadcastRreq mem clk srcIp dstIp rreqRetries s
  else s

def resendRreq (mem : Mem) (clk : Clock) (t : Task) (s : Router) : Router :=
  if t.retries ≤ 0 then ipqDropIp t.dstIp s
  else if mem .rreq 0 then broadcastRreq mem clk t.srcIp t.dstIp (t.retries - 1) s
  else s

/-! ## Outgoing packets -/

/-- `output_handler`, for a packet to `daddr`. -/
def outputHandler (mem : Mem) (clk : Clock) (daddr : U32) (s : Router) : Verdict × Router :=
  if daddr = broadcastIp then (.accept, s)
  else if p.gateway && !aodvSubnetTest p daddr then (.accept, s)
  else
    let (found, s) := findAodvRoute clk daddr s
    match found with
    | none => (.queue, genRreq mem clk p.myIp daddr s)
    | some r =>
      if r.routeValid then
        (.accept, if r.selfRoute then s
        else putRoute { r with lifetime := clk.now + activeRouteTimeout } s)
      else (.queue, genRreq mem clk p.myIp daddr s)

/-- A packet that goes out: the hook decides, and netfilter queues the packet when told to. -/
def output (mem : Mem) (clk : Clock) (daddr : U32) (s : Router) : Router :=
  match outputHandler p mem clk daddr s with
  | (.queue, s) => { s with queue := s.queue.enqueue { postRouting := true, daddr := daddr } }
  | (_, s) => s

end MobileCloudCaching.Aodv
