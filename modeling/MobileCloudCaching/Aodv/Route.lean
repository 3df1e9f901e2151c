import MobileCloudCaching.Aodv.Queue
import Mathlib.Data.List.Forall2

/-!
# The route table (`aodv_route.c`, `kernel_route.c`, `utils.c`)

The table is a list in ascending order of addresses.  A search walks over the addresses up
to the target, marks the entries that have run out, and keeps the last one whose prefix
fits.  The kernel's own table is a list of destinations with gateways, to which `SIOCADDRT`
adds an entry and from which `SIOCDELRT` takes the first one for a destination; the
allocation of its argument is taken to succeed.
-/

namespace MobileCloudCaching.Aodv

open Octets

variable (p : Params)

/-! ## Sequence numbers and addresses -/

def seqGreater (a b : U32) : Bool := !Serial.before a b

def seqLessOrEqual (a b : U32) : Bool := !decide (0 < (a - b).toInt)

/-- The only AODV device is the one that `use_dev` names. -/
def aodvSubnetTest (ip : U32) : Bool := p.myIp &&& p.netmask == p.netmask &&& ip

/-! ## The kernel's routes -/

def insertKernelRouteEntry (dst gw genmask : U32) (s : Router) : Router :=
  { s with kernelRoutes := { dst := dst &&& genmask, gateway := gw } :: s.kernelRoutes }

/-- `SIOCDELRT` does not return a positive number, so the loop around it runs once. -/
def deleteKernelRouteEntry (dst genmask : U32) (s : Router) : Router :=
  { s with kernelRoutes := s.kernelRoutes.eraseP fun k => k.dst == dst &&& genmask }

/-! ## Entries -/

namespace Route

/-- `expire_aodv_route` -/
def expire (clk : Clock) (r : Route) : Route :=
  { r with lifetime := clk.now + deletePeriod, seq := r.seq + 1, routeValid := false }

/-- The test before `expire_aodv_route` in a search. -/
def stale (clk : Clock) (r : Route) : Bool :=
  timeBefore r.lifetime clk.now && !r.selfRoute && r.routeValid

/-- `compare_aodv_route` -/
def compare (r : Route) (targetIp : U32) : Bool := r.ip &&& r.netmask == targetIp &&& r.netmask

/-- `expire_aodv_route`, when the entry has run out. -/
def refresh (clk : Clock) (r : Route) : Route := if r.stale clk then r.expire clk else r

end Route

/-! ## The table -/

/-- A write to the entry at the address of `r`. -/
def putRoute (r : Route) (s : Router) : Router :=
  { s with routes := s.routes.map fun x => if x.ptr = r.ptr then r else x }

/-- The entry that a pointer leads to, `none` after it has been freed. -/
def routeAt (ptr : ℕ) (s : Router) : Option Route := s.routes.find? fun r => r.ptr == ptr

/-- The walk of `find_aodv_route`; `possible` is the last entry that fits so far. -/
def scanRoutes (clk : Clock) (targetIp : U32) : List Route → Option Route →
    List Route × Option Route
  | [], possible => ([], possible)
  | r :: l, possible =>
    if r.ip ≤ targetIp then
      let r := r.refresh clk
      let (l, possible) :=
        scanRoutes clk targetIp l (if r.compare targetIp then some r else possible)
      (r :: l, possible)
    else (r :: l, possible)

def findAodvRoute (clk : Clock) (targetIp : U32) (s : Router) : Option Route × Router :=
  let (l, possible) := scanRoutes clk targetIp s.routes none
  (possible, { s with routes := l })

/-- Where `insert_aodv_route` puts an entry. -/
def placeRoute (r : Route) (l : List Route) : List Route :=
  l.takeWhile (fun x => decide (x.ip < r.ip)) ++ r :: l.dropWhile (fun x => decide (x.ip < r.ip))

/-- `route_write_lock` never returns while a reader holds the lock. -/
def insertAodvRoute (r : Route) (s : Router) : Option Router :=
  if s.routeReaders = 0 then some { s with routes := placeRoute r s.routes } else none

def removeAodvRoute (ptr : ℕ) (s : Router) : Option Router :=
  if s.routeReaders = 0 then some { s with routes := s.routes.filter fun r => r.ptr != ptr }
    else none

/-- The entry that `create_aodv_route` fills in.  The lifetime, which the source
leaves unset, is set before it is read. -/
def newRoute (ptr : ℕ) (ip : U32) : Route where
  ptr := ptr
  ip := ip
  netmask := broadcastIp
  seq := 0
  metric := 0
  nextHop := ip
  rreqId := 0
  lifetime := 0
  dev := none
  routeValid := false
  selfRoute := false
  learned := false

/-- `create_aodv_route`; `ok` is the outcome of its allocation.  An entry for the
address 0 is not put into the table. -/
def createAodvRoute (ok : Bool) (ip : U32) (s : Router) : Option (Option Route × Router) :=
  if ok then
    let r := newRoute s.nextPtr ip
    let s := { s with nextPtr := s.nextPtr + 1 }
    if ip = 0 then some (some r, s) else (insertAodvRoute r s).map fun s => (some r, s)
  else some (none, s)

/-- The walk of `flush_aodv_route_table`, one entry: what becomes of it, and whether
it is removed with its kernel route. -/
def flushRoute (clk : Clock) (r : Route) (s : Router) : Option Router :=
  if timeBefore r.lifetime clk.now && !r.selfRoute then
    if r.routeValid then some (putRoute (r.expire clk) s)
    else removeAodvRoute r.ptr (deleteKernelRouteEntry r.ip r.netmask s)
  else some s

def flushRoutes (clk : Clock) : List Route → Router → Option Router
  | [], s => some s
  | r :: l, s => (flushRoute clk r s).bind (flushRoutes clk l)

def flushAodvRouteTable (clk : Clock) (s : Router) : Option Router := flushRoutes clk s.routes s

/-! ## Neighbours -/

/-- `find_aodv_neigh` stops at the first address above the target. -/
def findAodvNeigh (targetIp : U32) (s : Router) : Option Neigh :=
  (s.neighs.takeWhile fun n => decide (n.ip ≤ targetIp)).find? fun n => n.ip == targetIp

def validAodvNeigh (clk : Clock) (targetIp : U32) (s : Router) : Bool :=
  match findAodvNeigh targetIp s with
  | some n => n.validLink && timeBefore clk.now n.lifetime
  | none => false

/-! ## Updating a route -/

/-- The arguments of `update_aodv_route`. -/
structure Update where
  ip : U32
  nextHop : U32
  metric : Byte
  seq : U32
  dev : Option Dev
  deriving DecidableEq, Repr

/-- The entry `r` after the update. -/
def Update.route (u : Update) (clk : Clock) (r : Route) : Route :=
  { r with
    seq := u.seq, nextHop := u.nextHop, metric := u.metric, dev := u.dev, routeValid := true,
    lifetime := clk.now + activeRouteTimeout, learned := true }

/-- The second half of `update_aodv_route`, for the entry `r`. -/
def installRoute (clk : Clock) (u : Update) (r : Route) (s : Router) : Router :=
  let r := u.route clk r
  ipqSendIp u.ip
    (insertKernelRouteEntry r.ip r.nextHop r.netmask
      (deleteKernelRouteEntry r.ip r.netmask (putRoute r s)))

/-- The tests of `update_aodv_route` on an entry that exists. -/
def Update.refused (u : Update) (r : Route) : Bool :=
  seqGreater r.seq u.seq || (r.routeValid && (u.seq == r.seq && decide (u.metric ≥ r.metric)))

def updateAodvRoute (ok : Bool) (clk : Clock) (u : Update) (s : Router) : Option Router := do
  let (found, s) := findAodvRoute clk u.ip s
  if !validAodvNeigh clk u.nextHop s then return s
  else
    match found with
    | some r => if u.refused r then return s else return installRoute clk u r s
    | none =>
      match ← createAodvRoute ok u.ip s with
      | (some r, s) => return installRoute clk u r s
      | (none, s) => return s

/-- `send_message` without a device: it goes out on the device of the route to `dst`. -/
def sendMessage (clk : Clock) (dst : U32) (ttl : Byte) (msg : Message) (s : Router) : Router :=
  if ttl = 0 then s
  else
    let (found, s) := findAodvRoute clk dst s
    match found with
    | none => s
    | some r =>
      if r.dev = some p.dev then { s with sent := s.sent ++
        [{ dst := dst, ttl := ttl, msg := msg }] }
      else s

end MobileCloudCaching.Aodv
