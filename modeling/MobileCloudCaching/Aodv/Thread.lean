import MobileCloudCaching.Aodv.Discovery
import MobileCloudCaching.Library.Transition
import Mathlib.Tactic.SplitIfs

/-!
# The AODV module as a state machine (`aodv_thread.c`, `packet_in.c`, `module.c`)

The thread takes the oldest task and runs its handler; packets and the timer put tasks
into the queue.  A step is `none` where the code would use a null pointer or an entry that has been
freed, leave a message, or wait for a lock for ever.

One handler run is one step, in which the clock is read once: `check_rreq` or `check_rrep` and the
`update_aodv_route` behind it see the neighbour alike.  `Readings`, where it matters for loops that
they need not, gives the handlers of the two messages a second reading.  A call of
`output_handler` is one step too, with its `gen_rreq`; `Attempts`, where it matters that another
call can come in between, takes it apart.
-/

namespace MobileCloudCaching.Aodv

open Octets

variable (p : Params)

/-- `valid_aodv_packet` -/
def validAodvPacket (m : Message) (s : Router) : Bool × Router :=
  match m with
  | .rreq _ | .rrep _ => (true, { s with overhead := s.overhead + 1 })
  | .rerr m => (m.dsts.length == m.dstCount.toNat, s)
  | .rrepAck => (true, s)

/-- `packet_in` -/
def packetIn (mem : Mem) (clk : Clock) (a : Arrival) (s : Router) : Verdict × Router :=
  match validAodvPacket a.msg s with
  | (true, s) => (.accept, insertTask mem clk a s)
  | (false, s) => (.drop, s)

/-- The `switch` of `aodv`. -/
def handle (mem : Mem) (clk : Clock) (t : Task) (s : Router) : Option Router :=
  match t.type with
  | .packet (.rreq m) => recvRreq p mem clk t m s
  | .packet (.rrep m) => recvRrep p mem clk t m s
  | .packet (.rerr m) => recvRerr mem clk t m s
  | .packet .rrepAck => some s
  | .cleanup => flushAodvRouteTable clk (flushFloodIdQueue p mem clk s)
  | .hello => sendHello p mem clk s
  | .neighbor => deleteAodvNeigh mem clk t.srcIp s
  | .routeCleanup => flushAodvRouteTable clk s
  | .resendRreq => some (resendRreq mem clk t s)

/-- One round of the loop of `aodv`; without a task the thread sleeps. -/
def runTask (mem : Mem) (clk : Clock) (s : Router) : Option Router :=
  match getTask s with
  | none => some s
  | some (t, s) => handle p mem clk t s

/-- What can happen to the module. -/
inductive Event
  | packet (mem : Mem) (clk : Clock) (a : Arrival)
  | output (mem : Mem) (clk : Clock) (daddr : U32)
  | timer (clk : Clock)
  | thread (mem : Mem) (clk : Clock)

/-- The clock that an event reads. -/
def Event.clk : Event → Clock
  | .packet _ clk _ | .output _ clk _ | .timer clk | .thread _ clk => clk

/-- The allocations of an event succeed. -/
def Event.Succeeds : Event → Prop
  | .packet mem _ _ | .output mem _ _ | .thread mem _ => mem.Succeeds
  | .timer _ => True

def step : Event → Router → Option Router
  | .packet mem clk a, s => some (packetIn mem clk a s).2
  | .output mem clk daddr, s => some (output p mem clk daddr s)
  | .timer clk, s => some (timerQueueSignal clk s)
  | .thread mem clk, s => runTask p mem clk s

/-- A condition on the task that a step of the thread handles, in the state without it. -/
def NextTask (ok : Mem → Clock → Task → Router → Prop) : Event → Router → Prop
  | .thread mem clk, s => ∀ τ ∈ s.taskQ.head?, ok mem clk τ { s with taskQ := s.taskQ.tail }
  | _, _ => True

instance decidableNextTask {ok : Mem → Clock → Task → Router → Prop}
    [∀ mem clk τ s, Decidable (ok mem clk τ s)] : ∀ e s, Decidable (NextTask ok e s)
  | .thread mem clk, s => inferInstanceAs
    (Decidable (∀ τ ∈ s.taskQ.head?, ok mem clk τ { s with taskQ := s.taskQ.tail }))
  | .packet _ _ _, _ | .output _ _ _, _ | .timer _, _ => isTrue trivial

/-- The thread sleeps, or handles the oldest task. -/
theorem runTask_cases {p : Params} {mem : Mem} {clk : Clock} {s t : Router}
    (h : runTask p mem clk s = some t) :
    s.taskQ = [] ∧ t = s ∨ ∃ τ, s.taskQ.head? = some τ ∧
      s.taskQ = τ :: s.taskQ.tail ∧ handle p mem clk τ { s with taskQ := s.taskQ.tail } =
      some t := by
  rw [runTask, getTask] at h
  cases hq : s.taskQ with
  | nil =>
    rw [hq] at h
    exact .inl ⟨rfl, (Option.some.inj h).symm⟩
  | cons τ q =>
    rw [hq] at h
    exact .inr ⟨τ, rfl, rfl, h⟩

/-! ## Start-up -/

/-- 127.0.0.1 as the host keeps it. -/
def loopbackIp : U32 := hton p.order 0x7F000001

/-- An entry that start-up makes for the address `ip`. -/
def selfEntry (ptr : ℕ) (ip netmask seq : U32) (metric : Byte) (rreqId : U32) (lifetime : ℕ)
    (dev : Option Dev) : Route where
  ptr := ptr
  ip := ip
  netmask := netmask
  seq := seq
  metric := metric
  nextHop := ip
  rreqId := rreqId
  lifetime := lifetime
  dev := dev
  routeValid := true
  selfRoute := true
  learned := false

/-- The entry that `init_aodv_route_table` makes. -/
def loopbackEntry : Route := selfEntry 0 (loopbackIp p) broadcastIp 0 0 0 0 none

/-- The entry that `create_aodv_dev` makes. -/
def devEntry : Route := selfEntry 1 p.myIp broadcastIp 1 0 1 (2 ^ 64 - 1) (some p.dev)

/-- The entry that `init_module` makes for `local_subnet`. -/
def subnetEntry (ip netmask : U32) : Route := selfEntry 2 ip netmask 1 1 1 0 none

/-- The state that `init_module` leaves; its allocations succeed. -/
def initModule (clk : Clock) : Option Router := do
  let s ← insertAodvRoute (loopbackEntry p) { nextPtr := 3, myRoute := 1 }
  let s ← match p.localSubnet with
    | none => some s
    | some (ip, netmask) => if ip = 0 then some s else insertAodvRoute (subnetEntry ip netmask) s
  let s ← if p.myIp = 0 then some s else insertAodvRoute (devEntry p) s
  return insertTimer true clk .cleanup helloInterval p.myIp
    (insertTimer true clk .hello helloInterval p.myIp
      (insertKernelRouteEntry p.myIp p.myIp broadcastIp s))

/-- The table that `init_module` leaves. -/
def initialRoutes : List Route :=
  let l := placeRoute (loopbackEntry p) []
  let l := match p.localSubnet with
    | none => l
    | some (ip, netmask) => if ip = 0 then l else placeRoute (subnetEntry ip netmask) l
  if p.myIp = 0 then l else placeRoute (devEntry p) l

/-- Nothing holds the lock, so start-up does not fail. -/
theorem initModule_eq (clk : Clock) : initModule p clk =
    some (insertTimer true clk .cleanup helloInterval p.myIp
      (insertTimer true clk .hello helloInterval p.myIp
        (insertKernelRouteEntry p.myIp p.myIp broadcastIp
          { routes := initialRoutes p, nextPtr := 3, myRoute := 1 }))) := by
  have hinsert : ∀ (r : Route) (l : List Route),
      insertAodvRoute r { routes := l, nextPtr := 3, myRoute := 1 } =
        some { routes := placeRoute r l, nextPtr := 3, myRoute := 1 } := fun _ _ => rfl
  have hlo : insertAodvRoute (loopbackEntry p) { nextPtr := 3, myRoute := 1 } =
    some { routes := placeRoute (loopbackEntry p) [], nextPtr := 3, myRoute := 1 } := rfl
  rw [initModule, hlo, initialRoutes]
  simp only [Option.bind_eq_bind, Option.bind_some, hinsert]
  cases p.localSubnet with
  | none => dsimp only; split_ifs <;> rfl
  | some q => dsimp only; split_ifs <;> rfl

/-- The state after start-up and a run. -/
def runFrom (clk : Clock) (events : List Event) : Option Router :=
  (initModule p clk).bind (Transition.exec (step p) events)

/-- A run is taken, and its end passes a test. -/
theorem exists_of_runFrom {clk : Clock} {events : List Event} {q : Router → Bool}
    (h : (runFrom p clk events).any q = true) :
    ∃ s t, initModule p clk = some s ∧ Transition.exec (step p) events s = some t ∧ q t = true := by
  obtain ⟨t, ht, hq⟩ := (Option.any_eq_true _ _).1 h
  obtain ⟨s, hs, he⟩ := Option.bind_eq_some_iff.1 ht
  exact ⟨s, t, hs, he, hq⟩

/-! ## A node, and packets for it -/

/-- 192.168.0.1, which is neither a gateway nor in front of a local subnet. -/
def plainNode : Params where
  order := .big
  myIp := 0xC0A80001
  netmask := 0xFFFFFF00
  dev := 0
  gateway := false
  localSubnet := none

/-- The other nodes of this network. -/
def peer (n : U32) : U32 := 0xC0A80000 + n

def clockAt (now : ℕ) : Clock where
  now := now
  jiffies := 0

/-- A hello of `ip`. -/
def helloFrom (ip seq : U32) : Arrival where
  srcIp := ip
  dstIp := broadcastIp
  ttl := 1
  dev := 0
  msg := .rrep { metric := 0, dstIp := ip, dstSeq := seq, srcIp := ip, lifetime := 3000 }

/-- A reply to `srcIp` for a route to `dstIp`, passed on by `via`. -/
def replyFrom (via srcIp dstIp seq : U32) (metric : Byte) : Arrival where
  srcIp := via
  dstIp := srcIp
  ttl := 10
  dev := 0
  msg := .rrep { metric := metric, dstIp := dstIp, dstSeq := seq, srcIp := srcIp, lifetime := 3000 }

/-- A route error of `via` for one destination. -/
def errorFrom (via dstIp seq : U32) : Arrival where
  srcIp := via
  dstIp := broadcastIp
  ttl := 10
  dev := 0
  msg := .rerr { dstCount := 1, dsts := [{ ip := dstIp, seq := seq }] }

/-- A packet that comes in and is handled at once. -/
def handled (now : ℕ) (a : Arrival) : List Event :=
  [.packet .plenty (clockAt now) a, .thread .plenty (clockAt now)]

end MobileCloudCaching.Aodv
