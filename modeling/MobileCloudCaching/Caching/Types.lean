import MobileCloudCaching.Kernel

/-!
# Messages, tasks and tables of the caching daemon

The structures of `cache.h`, the module parameters, and the state of the daemon: one list for each
linked list of the source, head first, and the counters.  A message is kept as the C structure holds
it (fields in the order in which they are stored, values as the host sees them); `store` and `load`
are the way to and from its octets on a host of a given byte order.
-/

namespace MobileCloudCaching.Caching

open Octets

def cachePort : ℕ := 655
def olsrPort : ℕ := 698
def aodvPort : ℕ := 654

def flushInterval : ℕ := 3000
def waitFileRepTime : ℕ := 10000
def waitExchRepTime : ℕ := 2000
def fileRequestLifetime : ℕ := 5000
def netDiameter : ℕ := 10

/-- `g_broadcast_ip`, which reads the same in both byte orders. -/
def broadcastIp : U32 := 0xFFFFFFFF

/-! ## Messages -/

def fileReqMessage : Byte := 1
def fileRepMessage : Byte := 2
def fragReqOriMessage : Byte := 3
def fragReqFwdMessage : Byte := 4
def exchangeReqMessage : Byte := 5
def exchangeRepMessage : Byte := 6
def addCacheMessage : Byte := 7

/-- The first four octets of a message: the type, the two octets of flags and reserved bits,
which no handler reads, and the last octet, which is the fragment count of a file reply. -/
def header (type last : Byte) : List Byte := [type, 0, 0, last]

@[simp] theorem length_header (type last : Byte) : (header type last).length = 4 := rfl

structure FileReq where
  srcIp : U32
  dstIp : U32
  fileId : U32
  seq : U32
  metric : U32
  deriving DecidableEq, Repr

structure FileRep where
  fragCount : Byte
  srcIp : U32
  dstIp : U32
  fileId : U32
  dist : U32
  deriving DecidableEq, Repr

structure FragReq where
  srcIp : U32
  dstIp : U32
  fileId : U32
  fragId : U32
  deriving DecidableEq, Repr

structure ExchReq where
  srcIp : U32
  dstIp : U32
  fileId : U32
  fragId : U32
  deriving DecidableEq, Repr

structure ExchRep where
  fileId : U32
  fragId : U32
  srcIp : U32
  dstIp : U32
  score : U32
  deriving DecidableEq, Repr

structure AddCache where
  fileId : U32
  fragId : U32
  srcIp : U32
  dstIp : U32
  deriving DecidableEq, Repr

def FileReq.size : ℕ := 24
def FileRep.size : ℕ := 20
def FragReq.size : ℕ := 20
def ExchReq.size : ℕ := 20
def ExchRep.size : ℕ := 24
def AddCache.size : ℕ := 20

def FileReq.store (o : ByteOrder) (m : FileReq) : List Byte :=
  header fileReqMessage 0 ++ storeAll o [m.srcIp, m.dstIp, m.fileId, m.seq, m.metric]

/-- A file reply is followed by the fragment ids it lists. -/
def FileRep.store (o : ByteOrder) (m : FileRep) (frags : List U32) : List Byte :=
  header fileRepMessage m.fragCount ++ storeAll o ([m.srcIp, m.dstIp, m.fileId, m.dist] ++ frags)

def FragReq.store (o : ByteOrder) (type : Byte) (m : FragReq) : List Byte :=
  header type 0 ++ storeAll o [m.srcIp, m.dstIp, m.fileId, m.fragId]

def ExchReq.store (o : ByteOrder) (m : ExchReq) : List Byte :=
  header exchangeReqMessage 0 ++ storeAll o [m.srcIp, m.dstIp, m.fileId, m.fragId]

def ExchRep.store (o : ByteOrder) (m : ExchRep) : List Byte :=
  header exchangeRepMessage 0 ++ storeAll o [m.fileId, m.fragId, m.srcIp, m.dstIp, m.score]

def AddCache.store (o : ByteOrder) (m : AddCache) : List Byte :=
  header addCacheMessage 0 ++ storeAll o [m.fileId, m.fragId, m.srcIp, m.dstIp]

/-- `none` when the octets end before the structure does. -/
def FileReq.load (o : ByteOrder) (data : List Byte) : Option FileReq := do
  return { srcIp := ← Octets.load o data 4, dstIp := ← Octets.load o data 8,
           fileId := ← Octets.load o data 12, seq := ← Octets.load o data 16,
           metric := ← Octets.load o data 20 }

def FileRep.load (o : ByteOrder) (data : List Byte) : Option FileRep := do
  return { fragCount := ← data[3]?, srcIp := ← Octets.load o data 4,
           dstIp := ← Octets.load o data 8, fileId := ← Octets.load o data 12,
           dist := ← Octets.load o data 16 }

def FragReq.load (o : ByteOrder) (data : List Byte) : Option FragReq := do
  return { srcIp := ← Octets.load o data 4, dstIp := ← Octets.load o data 8,
           fileId := ← Octets.load o data 12, fragId := ← Octets.load o data 16 }

def ExchReq.load (o : ByteOrder) (data : List Byte) : Option ExchReq := do
  return { srcIp := ← Octets.load o data 4, dstIp := ← Octets.load o data 8,
           fileId := ← Octets.load o data 12, fragId := ← Octets.load o data 16 }

def ExchRep.load (o : ByteOrder) (data : List Byte) : Option ExchRep := do
  return { fileId := ← Octets.load o data 4, fragId := ← Octets.load o data 8,
           srcIp := ← Octets.load o data 12, dstIp := ← Octets.load o data 16,
           score := ← Octets.load o data 20 }

def AddCache.load (o : ByteOrder) (data : List Byte) : Option AddCache := do
  return { fileId := ← Octets.load o data 4, fragId := ← Octets.load o data 8,
           srcIp := ← Octets.load o data 12, dstIp := ← Octets.load o data 16 }

/-- A datagram handed to the socket: the address in `sin_addr.s_addr`, the TTL and the payload. -/
structure Datagram where
  dst : U32
  ttl : Byte
  payload : List Byte
  deriving DecidableEq, Repr

/-! ## Tasks -/

/-- The `TASK_` constants.  The first seven are also the message types. -/
inductive TaskType
  | fileReqProcess
  | fileRepProcess
  | fragReqUpdate
  | fragReqFlush
  | exchSend
  | exchUpdate
  | addCacheProcess
  | fragReqSend
  | addCacheSend
  | cleanUp
  deriving DecidableEq, Repr

/-- The task type with the number of a message type. -/
def TaskType.ofMessage (type : Byte) : Option TaskType :=
  if type = fileReqMessage then some .fileReqProcess
  else if type = fileRepMessage then some .fileRepProcess
  else if type = fragReqOriMessage then some .fragReqUpdate
  else if type = fragReqFwdMessage then some .fragReqFlush
  else if type = exchangeReqMessage then some .exchSend
  else if type = exchangeRepMessage then some .exchUpdate
  else if type = addCacheMessage then some .addCacheProcess
  else none

/-- `cTask`; `data` are the `data_len` octets copied from the packet. -/
structure Task where
  type : TaskType
  time : ℕ
  dstIp : U32
  srcIp : U32
  fileId : U32
  fragId : U32
  ttl : Byte
  data : List Byte
  deriving DecidableEq, Repr

/-! ## Tables -/

/-- An entry of the flood id list. -/
structure FloodId where
  srcIp : U32
  dstIp : U32
  id : U32
  lifetime : ℕ
  deriving DecidableEq, Repr

/-- An entry of the cache table. -/
structure CacheTable where
  fileId : U32
  fragId : U32
  refs : U32
  isServiceCenter : U32
  deriving DecidableEq, Repr

/-- An entry of the list of file replies.  `map` has room for eight fragment ids. -/
structure FileRepInfo where
  fileId : U32
  dstIp : U32
  dist : U32
  map : Vector U32 8
  fragCount : U32
  expired : U32
  deriving DecidableEq

/-- An entry of the list of counted fragment requests. -/
structure ReqList where
  fileId : U32
  fragId : U32
  count : U32
  deriving DecidableEq, Repr

/-- An entry of the table of exchange replies. -/
structure ExchTable where
  fileId : U32
  fragId : U32
  dstIp : U32
  neighIp : U32
  score : U32
  expired : U32
  deriving DecidableEq, Repr

/-! ## The daemon -/

/-- What is fixed when the module is loaded: the host, its address and the module parameters. -/
structure Params where
  order : ByteOrder
  /-- `g_my_ip` -/
  myIp : U32
  /-- `g_act` -/
  act : String
  kval : Int32
  threshold : Int32
  bufSize : Int32
  /-- `HZ` -/
  hz : ℕ
  /-- the word that `input_handler` reads as `dev_ip->saddr` -/
  devSaddr : U32

/-- `strcmp(g_act, "on") == 0` -/
def Params.cachingOn (p : Params) : Bool := p.act == "on"

/-- The node 192.168.0.10 of `main.c` as a big-endian router, with the
parameters that `cache.h` keeps in comments. -/
def testNode : Params where
  order := .big
  myIp := 0xC0A8000A
  act := "on"
  kval := 3
  threshold := 4
  bufSize := 3
  hz := 100
  devSaddr := 0

/-- What a call of `kmalloc` is for. -/
inductive Alloc
  | task
  | taskData
  | floodId
  | cache
  | rinfo
  | creq
  | extable
  | message
  deriving DecidableEq, Repr

/-- The outcomes of `kmalloc` during one run of a handler: `ok site i` tells whether the `i`-th
allocation for `site` succeeds, and `map` is what a fresh `fileRepInfo` holds in its `map`. -/
structure Mem where
  ok : Alloc → ℕ → Bool
  map : Vector U32 8

/-- All allocations succeed. -/
def Mem.Succeeds (mem : Mem) : Prop := ∀ site i, mem.ok site i = true

/-- A run without any shortage of memory. -/
def Mem.plenty : Mem where
  ok _ _ := true
  map := Vector.replicate 8 0

theorem Mem.plenty_succeeds : Mem.plenty.Succeeds := fun _ _ => rfl

/-- The state of the daemon: its tables, queues and counters, and the datagrams sent so far. -/
structure Daemon where
  ctable : List CacheTable := []
  ctLen : ℤ := 0
  crlist : List ReqList := []
  rinfo : List FileRepInfo := []
  extable : List ExchTable := []
  floodIdQueue : List FloodId := []
  timerQueue : List Task := []
  taskQ : List Task := []
  /-- `cache_timer.expires` while the kernel timer is pending -/
  cacheTimer : Option ℕ := none
  cEnergy : U32 := 0
  cPrefetch : U32 := 0
  fOverhead : U32 := 0
  cOverhead : U32 := 0
  cSuccess : U32 := 0
  rtHeader : U32 := 0
  rtHello : U32 := 0
  rtHelloC : U32 := 0
  rtTc : U32 := 0
  aodvHello : U32 := 0
  aodvElse : U32 := 0
  sent : List Datagram := []
  /-- the cache entries given back by `kfree` -/
  freed : List CacheTable := []
  deriving DecidableEq

end MobileCloudCaching.Caching
