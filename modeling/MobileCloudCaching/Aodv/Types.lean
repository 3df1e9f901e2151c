import MobileCloudCaching.Kernel

/-!
# Messages, tasks and tables of the AODV module

The structures of `aodv.h`, the constants of the draft, and the state of the module: one list for
each linked list of the source, head first.  A message is kept as its handler sees it, after the
conversion to host order; addresses stay as the kernel keeps them.  Entries of the route table are
identified by the address `kmalloc` gave them, so that a pointer to an entry is that address.
-/

namespace MobileCloudCaching.Aodv

open Octets

def activeRouteTimeout : ℕ := 3000
def allowedHelloLoss : ℕ := 2
def helloInterval : ℕ := 1000
def deletePeriod : ℕ := allowedHelloLoss * helloInterval
def myRouteTimeout : ℕ := activeRouteTimeout
def netDiameter : ℕ := 10
def nodeTraversalTime : ℕ := 40
def netTraversalTime : ℕ := 2 * nodeTraversalTime * netDiameter
def pathDiscoveryTime : ℕ := 2 * netTraversalTime
def rreqRetries : ℕ := 2

/-- The delay of `TASK_NEIGHBOR`. -/
def neighborTimeout : ℕ := helloInterval * (1 + allowedHelloLoss) + 100

/-- `g_broadcast_ip`, which is also the netmask of a host route. -/
def broadcastIp : U32 := 0xFFFFFFFF

/-- A `struct net_device`, by its index. -/
abbrev Dev := ℕ

/-! ## Messages -/

structure Rreq where
  metric : Byte
  rreqId : U32
  dstIp : U32
  dstSeq : U32
  srcIp : U32
  srcSeq : U32
  deriving DecidableEq, Repr

structure Rrep where
  metric : Byte
  dstIp : U32
  dstSeq : U32
  srcIp : U32
  lifetime : U32
  deriving DecidableEq, Repr

/-- `aodv_dst` -/
structure AodvDst where
  ip : U32
  seq : U32
  deriving DecidableEq, Repr

/-- A route error: the count in its header, and the destinations behind it. -/
structure Rerr where
  dstCount : Byte
  dsts : List AodvDst
  deriving DecidableEq, Repr

inductive Message
  | rreq (m : Rreq)
  | rrep (m : Rrep)
  | rerr (m : Rerr)
  | rrepAck
  deriving DecidableEq, Repr

/-- A datagram handed to a socket: the address in `sin_addr.s_addr`, the TTL and the message. -/
structure Datagram where
  dst : U32
  ttl : Byte
  msg : Message
  deriving DecidableEq, Repr

/-! ## Tasks -/

/-- The `TASK_` constants; a task made of a packet carries the message in its data. -/
inductive TaskType
  | packet (m : Message)
  | resendRreq
  | hello
  | neighbor
  | cleanup
  | routeCleanup
  deriving DecidableEq, Repr

structure Task where
  type : TaskType
  id : U32
  time : ℕ
  dstIp : U32
  srcIp : U32
  dev : Option Dev
  ttl : Byte
  retries : ℕ
  deriving DecidableEq, Repr

/-! ## Tables -/

structure FloodId where
  srcIp : U32
  dstIp : U32
  id : U32
  lifetime : ℕ
  deriving DecidableEq, Repr

/-- An entry of the route table, at the address `ptr`. -/
structure Route where
  ptr : ℕ
  ip : U32
  netmask : U32
  seq : U32
  metric : Byte
  nextHop : U32
  rreqId : U32
  lifetime : ℕ
  dev : Option Dev
  routeValid : Bool
  selfRoute : Bool
  /-- ghost: `update_aodv_route` or `update_aodv_neigh_route` has written the entry -/
  learned : Bool
  deriving DecidableEq, Repr

structure Neigh where
  ip : U32
  lifetime : ℕ
  dev : Option Dev
  validLink : Bool
  deriving DecidableEq, Repr

/-- A route of the kernel: its masked destination and its gateway. -/
structure KernelRoute where
  dst : U32
  gateway : U32
  deriving DecidableEq, Repr

/-- A packet that netfilter has queued: whether this happened at `NF_INET_POST_ROUTING`, and its
destination. -/
structure QueueEntry where
  postRouting : Bool
  daddr : U32
  deriving DecidableEq, Repr

/-- `ipq_queue` with `q_list`; `reinjected` are the packets given back so far, with their
verdicts. -/
structure PacketQueue where
  list : List QueueEntry := []
  len : ℤ := 0
  maxlen : ℤ := 1024
  flushing : Bool := false
  terminate : Bool := false
  reinjected : List (QueueEntry × Verdict) := []
  deriving DecidableEq

/-! ## The router -/

/-- What is fixed when the module is loaded: the host, the address, netmask and index of the
device that `use_dev` names, and the other module parameters. -/
structure Params where
  order : ByteOrder
  /-- `g_my_ip` -/
  myIp : U32
  netmask : U32
  dev : Dev
  /-- `g_aodv_gateway` -/
  gateway : Bool
  /-- the address and netmask in `local_subnet` -/
  localSubnet : Option (U32 × U32)

/-- What a call of `kmalloc` is for. -/
inductive Alloc
  | route
  | neigh
  | floodId
  | task
  | taskData
  | rreq
  | rrep
  | rerr
  | rerrRoute
  deriving DecidableEq, Repr

/-- The outcomes of `kmalloc` during one run of a handler: `mem site i` tells whether the `i`-th
allocation for `site` succeeds. -/
abbrev Mem := Alloc → ℕ → Bool

/-- All allocations succeed. -/
def Mem.Succeeds (mem : Mem) : Prop := ∀ site i, mem site i = true

/-- A run without any shortage of memory. -/
def Mem.plenty : Mem := fun _ _ => true

theorem Mem.plenty_succeeds : Mem.plenty.Succeeds := fun _ _ => rfl

/-- The state of the module, and the datagrams sent so far. -/
structure Router where
  /-- `aodv_route_table` -/
  routes : List Route := []
  /-- the address of the next entry that is allocated -/
  nextPtr : ℕ := 0
  /-- the readers that still hold `route_lock` -/
  routeReaders : ℕ := 0
  /-- `g_my_route` -/
  myRoute : ℕ := 0
  neighs : List Neigh := []
  floodIdQueue : List FloodId := []
  timerQueue : List Task := []
  taskQ : List Task := []
  kernelRoutes : List KernelRoute := []
  queue : PacketQueue := {}
  sent : List Datagram := []
  /-- `aodv_overhead` -/
  overhead : U32 := 0
  deriving DecidableEq

end MobileCloudCaching.Aodv
