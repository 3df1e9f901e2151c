import MobileCloudCaching.Aodv.Route

/-!
# Neighbours and broken links (`aodv_neigh.c`, `hello.c`, `rerr.c`)

A hello enters its sender as a neighbour, restarts the timer after which the neighbour is dropped,
and writes a direct route.  When a neighbour is dropped, or reports broken routes, the routes
through it are marked and reported on.
-/

namespace MobileCloudCaching.Aodv

variable (p : Params)

/-! ## Route errors -/

/-- `send_rerr`; the count in the header has eight bits. -/
def sendRerr (ok : Bool) (badRoutes : List AodvDst) (s : Router) : Router :=
  if ok then
    localBroadcast (BitVec.ofNat 8 netDiameter)
      (.rerr { dstCount := BitVec.ofNat 8 badRoutes.length, dsts := badRoutes }) s
  else s

/-- The walk of `gen_rerr`: whether it came to its end, the table, and the list of broken routes,
which takes the sequence numbers from before the entries are marked. -/
def breakRoutes (mem : Mem) (clk : Clock) (brkDstIp : U32) :
    List Route → List AodvDst → Bool × List Route × List AodvDst
  | [], bad => (true, [], bad)
  | r :: l, bad =>
    if r.nextHop = brkDstIp ∧ r.selfRoute = false then
      if mem .rerrRoute bad.length then
        let (done, l, bad) := breakRoutes mem clk brkDstIp l ({ ip := r.ip, seq := r.seq } :: bad)
        (done, (if r.routeValid then r.expire clk else r) :: l, bad)
      else (false, r :: l, bad)
    else
      let (done, l, bad) := breakRoutes mem clk brkDstIp l bad
      (done, r :: l, bad)

/-- `gen_rerr`; when it runs out of memory, it returns with the read lock. -/
def genRerr (mem : Mem) (clk : Clock) (brkDstIp : U32) (s : Router) : Router :=
  let (done, l, bad) := breakRoutes mem clk brkDstIp s.routes []
  let s := { s with routes := l }
  if done then if bad.length = 0 then s else sendRerr (mem .rerr 0) bad s
  else { s with routeReaders := s.routeReaders + 1 }

/-- The loop of `recv_rerr` over the listed destinations: whether it came to
its end, and the list to be sent on. -/
def breakListed (mem : Mem) (clk : Clock) (srcIp : U32) :
    List AodvDst → List AodvDst → Router → Bool × List AodvDst × Router
  | [], outgoing, s => (true, outgoing, s)
  | d :: l, outgoing, s =>
    let (found, s) := findAodvRoute clk d.ip s
    match found with
    | none => breakListed mem clk srcIp l outgoing s
    | some r =>
      if r.selfRoute = false ∧ r.nextHop = srcIp then
        let r := { r with seq := d.seq }
        let s := putRoute r s
        if mem .rerrRoute outgoing.length then
          breakListed mem clk srcIp l (d :: outgoing)
            (if r.routeValid then putRoute (r.expire clk) s else s)
        else (false, outgoing, s)
      else breakListed mem clk srcIp l outgoing s

/-- `recv_rerr`; behind the last destination there is no memory to read. -/
def recvRerr (mem : Mem) (clk : Clock) (t : Task) (m : Rerr) (s : Router) : Option Router :=
  if m.dstCount.toNat ≤ m.dsts.length then
    let (done, outgoing, s) := breakListed mem clk t.srcIp (m.dsts.take m.dstCount.toNat) [] s
    if done ∧ outgoing.length ≠ 0 then some (sendRerr (mem .rerr 0) outgoing s) else some s
  else none

/-! ## Neighbours -/

/-- `delete_aodv_neigh`; the entry found may have been marked by `gen_rerr` when it is looked at
again. -/
def deleteAodvNeigh (mem : Mem) (clk : Clock) (ip : U32) (s : Router) : Option Router :=
  if s.neighs.any fun n => n.ip == ip then
    let s := deleteTimer ip .neighbor { s with neighs := s.neighs.eraseP fun n => n.ip == ip }
    let (found, s) := findAodvRoute clk ip s
    match found with
    | none => some s
    | some r =>
      if r.nextHop = r.ip then do
        let s := genRerr mem clk r.ip (deleteKernelRouteEntry r.ip r.netmask s)
        let r ← routeAt r.ptr s
        if r.routeValid then return putRoute (r.expire clk) s else removeAodvRoute r.ptr s
      else some s
  else some s

/-- `create_aodv_neigh`; an address that is on the list already is refused. -/
def createAodvNeigh (ok : Bool) (ip : U32) (dev : Option Dev)
    (s : Router) : Option (Neigh × Router) :=
  let before := s.neighs.takeWhile fun n => decide (n.ip < ip)
  let after := s.neighs.dropWhile fun n => decide (n.ip < ip)
  if after.head?.any fun n => n.ip == ip then none
  else if ok then
    let n : Neigh := { ip := ip, lifetime := 0, dev := dev, validLink := true }
    some (n, { s with neighs := before ++ n :: after })
  else none

/-- A write to the neighbour with the address of `n`. -/
def putNeigh (n : Neigh) (s : Router) : Router :=
  { s with neighs := s.neighs.map fun x => if x.ip = n.ip then n else x }

/-- The entry `r` after a hello of the neighbour `n`. -/
def Neigh.route (n : Neigh) (clk : Clock) (m : Rrep) (r : Route) : Route :=
  { r with
    lifetime := clk.now + m.lifetime.toNat, dev := n.dev, nextHop := n.ip, routeValid := true,
    seq := m.dstSeq, metric := 1, learned := true }

/-- The rest of `update_aodv_neigh_route` for the entry `r`: the kernel gets the next hop
that the entry has before it is written. -/
def learnNeigh (clk : Clock) (n : Neigh) (m : Rrep) (r : Route) (s : Router) : Router :=
  putRoute (n.route clk m r)
    (insertKernelRouteEntry r.ip r.nextHop r.netmask (deleteKernelRouteEntry r.ip r.netmask s))

/-- `update_aodv_neigh_route`; without memory for an entry it goes through a null pointer. -/
def updateAodvNeighRoute (ok : Bool) (clk : Clock) (n : Neigh) (m : Rrep) (s : Router) :
    Option Router := do
  let (found, s) := findAodvRoute clk n.ip s
  match found with
  | some r => return learnNeigh clk n m r s
  | none =>
    match ← createAodvRoute ok n.ip s with
    | (some r, s) => return learnNeigh clk n m r s
    | (none, _) => none

def updateAodvNeigh (ok : Bool) (clk : Clock) (n : Neigh) (m : Rrep) (s : Router) : Option Router :=
  if n.validLink then updateAodvNeighRoute ok clk n m s else some s

/-! ## Hellos -/

/-- `recv_hello`, with the neighbour that is on the list or has just been created. -/
def heardHello (mem : Mem) (clk : Clock) (m : Rrep) (n : Neigh) (s : Router) : Option Router :=
  let s :=
    insertTimer (mem .task 0) clk .neighbor neighborTimeout n.ip (deleteTimer n.ip .neighbor s)
  let n := { n with lifetime := m.lifetime.toNat + clk.now + 20 }
  updateAodvNeigh (mem .route 0) clk n m (putNeigh n s)

def recvHello (mem : Mem) (clk : Clock) (t : Task) (m : Rrep) (s : Router) : Option Router :=
  match findAodvNeigh m.dstIp s with
  | some n => heardHello mem clk m n s
  | none =>
    match createAodvNeigh (mem .neigh 0) m.dstIp t.dev s with
    | some (n, s) => heardHello mem clk m n s
    | none => some s

/-- `send_hello`; the metric, which the source leaves unset, is not read in a hello. -/
def sendHello (mem : Mem) (clk : Clock) (s : Router) : Option Router :=
  if mem .rrep 0 then do
    let r ← routeAt s.myRoute s
    return insertTimer (mem .task 0) clk .hello helloInterval p.myIp
      (localBroadcast 1 (.rrep { metric := 0, dstIp := r.ip, dstSeq := r.seq, srcIp := r.ip,
                                 lifetime := BitVec.ofNat 32 myRouteTimeout }) s)
  else some s

end MobileCloudCaching.Aodv
