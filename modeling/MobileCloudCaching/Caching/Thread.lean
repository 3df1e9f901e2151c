import MobileCloudCaching.Caching.PacketIn
import MobileCloudCaching.Library.Transition

/-!
# The daemon as a state machine (`cThread.c`, `module.c`)

The thread takes the oldest task and runs its handler; packets and the timer put tasks into the
queue.  One handler run is one step, in which the clock is read once.  A step is `none` where the
code would use a null pointer or leave an object.
-/

namespace MobileCloudCaching.Caching

variable (p : Params)

/-- The task `TASK_CLEAN_UP`. -/
def cleanUp (mem : Mem) (clk : Clock) (d : Daemon) : Daemon :=
  flushExtable (flushRinfo (flushFloodIdQueue p mem clk d))

theorem ctable_cleanUp (mem : Mem) (clk : Clock) (d : Daemon) :
    (cleanUp p mem clk d).ctable = d.ctable :=
  (SameTables.updateTimerQueue .cleanUp p clk _).ctable.trans
    (SameTables.insertTimer _ _ _ _ _ _ _ _).ctable

/-- The `switch` of `cache`. -/
def handle (mem : Mem) (clk : Clock) (t : Task) (d : Daemon) : Option Daemon :=
  match t.type with
  | .fileReqProcess => recvFlreq p mem clk t d
  | .fileRepProcess => recvFlrep p mem clk t d
  | .fragReqUpdate => recvFrreqOri p mem clk t d
  | .fragReqFlush => recvFrreqFwd p t d
  | .exchSend => recvExreq p mem t d
  | .exchUpdate => recvExrep p mem t d
  | .addCacheProcess => recvAddcache p mem t d
  | .fragReqSend => (processFlrep p mem clk t d).map Prod.snd
  | .addCacheSend => some (selectAgent p mem t d)
  | .cleanUp => some (cleanUp p mem clk d)

/-- One round of the loop of `cache`; without a task the thread sleeps. -/
def runTask (mem : Mem) (clk : Clock) (d : Daemon) : Option Daemon :=
  match getTask d with
  | none => some d
  | some (t, d) => handle p mem clk t d

/-- What can happen to the daemon. -/
inductive Event
  | packet (mem : Mem) (clk : Clock) (skb : SkBuff)
  | timer (clk : Clock)
  | thread (mem : Mem) (clk : Clock)

/-- All allocations of the event succeed. -/
def Event.Succeeds : Event → Prop
  | .packet mem _ _ | .thread mem _ => mem.Succeeds
  | .timer _ => True

def step : Event → Daemon → Option Daemon
  | .packet mem clk skb, d => some (packetIn p mem clk skb d).2
  | .timer clk, d => some (timerQueueSignal p clk d)
  | .thread mem clk, d => runTask p mem clk d

/-- The state that `init_module` leaves, with the fragments `names` in the directory. -/
def initModule (mem : Mem) (clk : Clock) (names : List (U32 × U32)) : Daemon :=
  updateTimerQueue p clk
    (insertTimer (mem.ok .task 0) clk .cleanUp flushInterval p.myIp 0 0
      (initCacheTable mem names {}))

end MobileCloudCaching.Caching
