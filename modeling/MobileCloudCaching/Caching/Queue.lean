import MobileCloudCaching.Caching.Types

/-!
# Task queue, timer queue and socket (`cTask.c`, `cTimer.c`, `cSocket.c`)

`taskQ` lists the queued tasks oldest first: `queueTask` appends and `getTask` takes the first.  The
timer queue is the list from `timer_queue`, and `cacheTimer` is the kernel timer that stands for its
first entry.
-/

namespace MobileCloudCaching.Caching

open Octets

/-! ## Task queue -/

def createTask (type : TaskType) (clk : Clock) : Task where
  type := type
  time := clk.now
  dstIp := 0
  srcIp := 0
  fileId := 0
  fragId := 0
  ttl := 0
  data := []

def queueTask (t : Task) (d : Daemon) : Daemon := { d with taskQ := d.taskQ ++ [t] }

def getTask (d : Daemon) : Option (Task × Daemon) :=
  match d.taskQ with
  | [] => none
  | t :: q => some (t, { d with taskQ := q })

/-- The task that `insert_task` makes of a packet. -/
def taskOfPacket (p : Params) (clk : Clock) (type : TaskType) (skb : SkBuff) : Task :=
  { createTask type clk with
    srcIp := skb.saddr p.order, dstIp := skb.daddr p.order, ttl := skb.ttl, data := skb.payload }

/-- `insert_task`; without memory the packet makes no task. -/
def insertTask (p : Params) (mem : Mem) (clk : Clock) (type : TaskType) (skb : SkBuff)
    (d : Daemon) : Daemon :=
  if mem.ok .task 0 && mem.ok .taskData 0 then queueTask (taskOfPacket p clk type skb) d else d

/-! ## Timer queue -/

/-- The walk of `queue_timer`: the new entry goes in front of the first one that is not earlier. -/
def insertByTime (new : Task) : List Task → List Task
  | [] => [new]
  | t :: l => if timeAfter new.time t.time then t :: insertByTime new l else new :: t :: l

def queueTimer (t : Task) (d : Daemon) : Daemon :=
  { d with timerQueue := insertByTime t d.timerQueue }

/-- `insert_timer`; `ok` is the outcome of its allocation. -/
def insertTimer (ok : Bool) (clk : Clock) (type : TaskType) (delay : ℕ) (ip fileId fragId : U32)
    (d : Daemon) : Daemon :=
  if ok then
    queueTimer { createTask type clk with
      srcIp := ip, dstIp := ip, fileId := fileId, fragId := fragId, time := clk.now + delay } d
  else d

/-- `tvtojiffies`, with 32-bit `unsigned long`. -/
def tvtojiffies (hz sec usec : ℕ) : ℕ :=
  if sec > (2 ^ 32 - 1) / hz then 2 ^ 32 - 1
  else (hz * sec + (usec + (1000000 / hz - 1)) / (1000000 / hz)) % 2 ^ 32

/-- The delay that `update_timer_queue` computes for the first entry, in jiffies. -/
def timerDelay (hz time now : ℕ) : ℕ :=
  if timeBefore time now then tvtojiffies hz 0 1
  else
    let numerator := (time + 2 ^ 64 - now) % 2 ^ 64
    tvtojiffies hz (numerator / 1000 % 2 ^ 32) (numerator % 1000 * 1000)

def updateTimerQueue (p : Params) (clk : Clock) (d : Daemon) : Daemon :=
  match d.timerQueue with
  | [] => { d with cacheTimer := none }
  | t :: _ =>
      { d with cacheTimer := some ((clk.jiffies + timerDelay p.hz t.time clk.now) % 2 ^ 32) }

/-- `timer_queue_signal`: the due entries at the head of the timer queue become tasks. -/
def timerQueueSignal (p : Params) (clk : Clock) (d : Daemon) : Daemon :=
  updateTimerQueue p clk
    { d with
      taskQ := d.taskQ ++ d.timerQueue.takeWhile fun t => timeBeforeEq t.time clk.now
      timerQueue := d.timerQueue.dropWhile fun t => timeBeforeEq t.time clk.now }

/-! ## Socket -/

def localBroadcast (ttl : Byte) (payload : List Byte) (d : Daemon) : Daemon :=
  if ttl < 1 then d
  else { d with sent := d.sent ++ [{ dst := broadcastIp, ttl := ttl, payload := payload }] }

def sendMessage (dst : U32) (ttl : Byte) (payload : List Byte) (d : Daemon) : Daemon :=
  if ttl = 0 then d
  else { d with sent := d.sent ++ [{ dst := dst, ttl := ttl, payload := payload }] }

/-! ## What stays the same -/

theorem insertTimer_eq (ok : Bool) (clk : Clock) (type : TaskType) (delay : ℕ)
    (ip fileId fragId : U32) (d : Daemon) :
    ∃ q, insertTimer ok clk type delay ip fileId fragId d = { d with timerQueue := q } := by
  cases ok <;> exact ⟨_, rfl⟩

theorem updateTimerQueue_eq (p : Params) (clk : Clock) (d : Daemon) :
    ∃ c, updateTimerQueue p clk d = { d with cacheTimer := c } := by
  unfold updateTimerQueue
  split <;> exact ⟨_, rfl⟩

theorem insertByTime_perm (new : Task) (l : List Task) : (insertByTime new l).Perm (new :: l) := by
  induction l with
  | nil => rfl
  | cons t l ih =>
    rw [insertByTime]
    split
    · exact (ih.cons t).trans (List.Perm.swap new t l)
    · rfl

/-- `q` is the timer queue `l` with some more tasks, all of one type. -/
def MoreTimers (type : TaskType) (l q : List Task) : Prop :=
  ∃ new, q.Perm (new ++ l) ∧ ∀ t ∈ new, t.type = type

theorem MoreTimers.refl (type : TaskType) (l : List Task) : MoreTimers type l l :=
  ⟨[], List.Perm.refl l, by simp⟩

theorem MoreTimers.trans {type : TaskType} {l₁ l₂ l₃ : List Task} (h : MoreTimers type l₁ l₂)
    (h' : MoreTimers type l₂ l₃) : MoreTimers type l₁ l₃ := by
  obtain ⟨new, hp, ht⟩ := h
  obtain ⟨new', hp', ht'⟩ := h'
  refine ⟨new' ++ new, hp'.trans ?_, fun t hmem => ?_⟩
  · rw [List.append_assoc]
    exact hp.append_left new'
  · rcases List.mem_append.1 hmem with hmem | hmem
    · exact ht' t hmem
    · exact ht t hmem

/-- `e` has the tables and the task queue of `d`, and perhaps more timers of the given type. -/
structure SameTables (type : TaskType) (d e : Daemon) : Prop where
  ctable : e.ctable = d.ctable
  ctLen : e.ctLen = d.ctLen
  freed : e.freed = d.freed
  rinfo : e.rinfo = d.rinfo
  extable : e.extable = d.extable
  floodIdQueue : e.floodIdQueue = d.floodIdQueue
  taskQ : e.taskQ = d.taskQ
  cEnergy : e.cEnergy = d.cEnergy
  cSuccess : e.cSuccess = d.cSuccess
  timers : MoreTimers type d.timerQueue e.timerQueue

namespace SameTables

variable {type : TaskType} {d e f : Daemon}

theorem refl (type : TaskType) (d : Daemon) : SameTables type d d :=
  ⟨rfl, rfl, rfl, rfl, rfl, rfl, rfl, rfl, rfl, MoreTimers.refl _ _⟩

theorem trans (h : SameTables type d e) (h' : SameTables type e f) : SameTables type d f :=
  ⟨h'.ctable.trans h.ctable, h'.ctLen.trans h.ctLen, h'.freed.trans h.freed, h'.rinfo.trans h.rinfo,
    h'.extable.trans h.extable, h'.floodIdQueue.trans h.floodIdQueue, h'.taskQ.trans h.taskQ,
    h'.cEnergy.trans h.cEnergy, h'.cSuccess.trans h.cSuccess, h.timers.trans h'.timers⟩

theorem localBroadcast (type : TaskType) (ttl : Byte) (payload : List Byte) (d : Daemon) :
    SameTables type d (localBroadcast ttl payload d) := by
  unfold Caching.localBroadcast
  split
  · exact refl _ _
  · exact ⟨rfl, rfl, rfl, rfl, rfl, rfl, rfl, rfl, rfl, MoreTimers.refl _ _⟩

theorem sendMessage (type : TaskType) (dst : U32) (ttl : Byte) (payload : List Byte) (d : Daemon) :
    SameTables type d (sendMessage dst ttl payload d) := by
  unfold Caching.sendMessage
  split
  · exact refl _ _
  · exact ⟨rfl, rfl, rfl, rfl, rfl, rfl, rfl, rfl, rfl, MoreTimers.refl _ _⟩

/-- A message that is sent only when there is memory for it. -/
theorem ite (ok : Bool) (h : SameTables type d e) : SameTables type d (if ok then e else d) := by
  cases ok
  · exact refl _ _
  · exact h

theorem insertTimer (ok : Bool) (clk : Clock) (type : TaskType) (delay : ℕ)
    (ip fileId fragId : U32) (d : Daemon) :
    SameTables type d (insertTimer ok clk type delay ip fileId fragId d) := by
  cases ok
  · exact refl _ _
  · exact ⟨rfl, rfl, rfl, rfl, rfl, rfl, rfl, rfl, rfl, [_],
      insertByTime_perm _ _, by simp [createTask]⟩

theorem updateTimerQueue (type : TaskType) (p : Params) (clk : Clock) (d : Daemon) :
    SameTables type d (updateTimerQueue p clk d) := by
  unfold Caching.updateTimerQueue
  split
  · exact ⟨rfl, rfl, rfl, rfl, rfl, rfl, rfl, rfl, rfl, MoreTimers.refl _ _⟩
  · exact ⟨rfl, rfl, rfl, rfl, rfl, rfl, rfl, rfl, rfl, MoreTimers.refl _ _⟩

end SameTables

end MobileCloudCaching.Caching
