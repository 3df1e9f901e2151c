import MobileCloudCaching.Caching.Flood

/-!
# Waking the thread (`cThread.c`, `cTask.c`)

`queue_task` puts a task into the queue, releases the lock, and kicks the thread;
`cache` takes tasks until there is none, and sleeps until it is kicked.  A kick wakes
the thread only when it is on the wait queue, so one that comes between the last look at
the task queue and the wait queue is lost.
-/

namespace MobileCloudCaching.Caching

open Transition

/-- Where the thread is in `cache`. -/
inductive Place
  /-- at the top of the loop, in front of the first look at `kill_thread` -/
  | top
  /-- in front of `interruptible_sleep_on` -/
  | falling
  /-- on the wait queue -/
  | asleep
  /-- off the wait queue, in front of the second look at `kill_thread` -/
  | woken
  /-- in front of `get_task` -/
  | fetching
  /-- in the `switch` -/
  | running (t : Task)
  | dead
  deriving DecidableEq, Repr

/-- `wake_up_interruptible` -/
def Place.wake : Place → Place
  | .asleep => .woken
  | a => a

/-- The thread has seen an empty task queue, or none yet, and is not on the wait queue. -/
def Place.deaf : Place → Bool
  | .top | .falling => true
  | _ => false

structure Looping where
  daemon : Daemon
  place : Place
  killThread : Bool
  /-- the calls of `queue_task` that have queued their task and not yet kicked the thread -/
  kicks : ℕ

inductive LoopAction
  /-- the packet hook or the timer queues a task, up to the release of the lock -/
  | queue (t : Task)
  | kick
  /-- `kill_cache` -/
  | kill
  /-- the next step of the thread -/
  | thread (mem : Mem) (clk : Clock)

namespace Looping

variable (p : Params)

/-- The next step of `cache`. -/
def advance (mem : Mem) (clk : Clock) (s : Looping) : Option Looping :=
  match s.place with
  | .top => some { s with place := if s.killThread then .dead else .falling }
  | .falling => some { s with place := .asleep }
  | .asleep => none
  | .woken => some { s with place := if s.killThread then .dead else .fetching }
  | .fetching =>
    match getTask s.daemon with
    | none => some { s with place := .top }
    | some (t, d) => some { s with daemon := d, place := .running t }
  | .running t =>
      (handle p mem clk t s.daemon).map fun d => { s with daemon := d, place := .fetching }
  | .dead => none

def step (a : LoopAction) (s : Looping) : Option Looping :=
  match a with
  | .queue t => some { s with daemon := queueTask t s.daemon, kicks := s.kicks + 1 }
  | .kick =>
      if s.kicks = 0 then none else some { s with place := s.place.wake, kicks := s.kicks - 1 }
  | .kill => some { s with place := s.place.wake, killThread := true }
  | .thread mem clk => advance p mem clk s

/-- The thread starts after `init_module`. -/
def start (mem : Mem) (clk : Clock) (names : List (U32 × U32)) : Looping where
  daemon := initModule p mem clk names
  place := .top
  killThread := false
  kicks := 0

/-- No task waits for a thread that nobody is going to wake. -/
def NoneWaits (s : Looping) : Prop := s.place = .asleep → s.kicks = 0 → s.daemon.taskQ = []

instance decidableNoneWaits (s : Looping) : Decidable s.NoneWaits :=
  inferInstanceAs (Decidable (_ → _ → _))

/-- The last kick that is due does not come to a thread that is going to sleep on queued tasks. -/
def Heard (a : LoopAction) (s : Looping) : Prop :=
  match a with
  | .kick => s.place.deaf = true → s.kicks = 1 → s.daemon.taskQ = []
  | _ => True

instance decidableHeard : ∀ a s, Decidable (Heard a s)
  | .kick, s => inferInstanceAs (Decidable (s.place.deaf = true → s.kicks = 1 →
    s.daemon.taskQ = []))
  | .queue _, _ | .kill, _ | .thread _ _, _ => isTrue trivial

/-! ## The loop and the tasks -/

variable {p}

/-- A round of the loop is `get_task` and the handler of what it returns. -/
theorem exec_round (mem : Mem) (clk : Clock) {s : Looping} (hs : s.place = .fetching) :
    ∃ l, (exec (step p) l s).map Looping.daemon = runTask p mem clk s.daemon := by
  have hfirst : step p (.thread mem clk) s = _ := (by rw [step, advance, hs])
  unfold runTask
  cases hq : getTask s.daemon with
  | none =>
    rw [hq] at hfirst
    refine ⟨[.thread mem clk], ?_⟩
    rw [exec_cons, hfirst]
    rfl
  | some q =>
    obtain ⟨t, d⟩ := q
    rw [hq] at hfirst
    refine ⟨[.thread mem clk, .thread mem clk], ?_⟩
    rw [exec_cons, hfirst, Option.bind_some, exec_cons, step, advance]
    dsimp only
    cases handle p mem clk t d <;> rfl

/-- Tasks that are queued one after the other, each with its kick. -/
def queueing (new : List Task) : List LoopAction := new.flatMap fun t => [.queue t, .kick]

theorem exec_queueing (new : List Task) (s : Looping) : ∃ place,
    exec (step p) (queueing new) s =
      some { s with
        daemon := { s.daemon with taskQ := s.daemon.taskQ ++ new }, place := place } := by
  induction new generalizing s with
  | nil => exact ⟨s.place, by rw [List.append_nil]; rfl⟩
  | cons t new ih =>
    obtain ⟨place, h⟩ := ih { s with daemon := queueTask t s.daemon, place := s.place.wake }
    refine ⟨place, ?_⟩
    have htwo : exec (step p) [.queue t, .kick] s =
        some { s with daemon := queueTask t s.daemon, place := s.place.wake } := rfl
    rw [queueing, List.flatMap_cons, exec_append, htwo, Option.bind_some]
    refine h.trans ?_
    rw [queueTask]
    dsimp only
    rw [List.append_assoc]
    rfl

/-- A packet queues its task in this way. -/
theorem packetIn_queues (mem : Mem) (clk : Clock) (skb : SkBuff) (s : Looping) : ∃ new t,
    exec (step p) (queueing new) s = some t ∧
      t.daemon.taskQ = (packetIn p mem clk skb s.daemon).2.taskQ := by
  obtain ⟨new, f, c, h, -⟩ := packetIn_tasks p mem clk skb s.daemon
  obtain ⟨place, he⟩ := exec_queueing (p := p) new s
  exact ⟨new, _, he, by rw [h]⟩

/-- So does the timer. -/
theorem timerQueueSignal_queues (clk : Clock) (s : Looping) : ∃ new t,
    exec (step p) (queueing new) s = some t ∧
      t.daemon.taskQ = (timerQueueSignal p clk s.daemon).taskQ := by
  obtain ⟨new, q, c, h, -⟩ := timerQueueSignal_tasks p clk s.daemon
  obtain ⟨place, he⟩ := exec_queueing (p := p) new s
  exact ⟨new, _, he, by rw [h]⟩

/-! ## Runs -/

/-- Unless a kick is due, nothing is queued while the thread falls asleep or sleeps. -/
def Inv (s : Looping) : Prop := s.place.deaf = true ∨ s.place = .asleep → s.kicks = 0 →
  s.daemon.taskQ = []

variable {s t : Looping} {a : LoopAction}

theorem Inv.noneWaits (h : Inv s) : s.NoneWaits := fun hplace => h (.inr hplace)

theorem Inv.advance {mem : Mem} {clk : Clock}
    (h : Inv s) (ha : advance p mem clk s = some t) : Inv t := by
  unfold Looping.advance at ha
  cases hplace : s.place with
  | top =>
    simp only [hplace, Option.some.injEq] at ha
    rw [← ha]
    exact fun _ => h (.inl (by rw [hplace]; rfl))
  | falling =>
    simp only [hplace, Option.some.injEq] at ha
    rw [← ha]
    exact fun _ => h (.inl (by rw [hplace]; rfl))
  | asleep => simp only [hplace] at ha; cases ha
  | dead => simp only [hplace] at ha; cases ha
  | woken =>
    simp only [hplace, Option.some.injEq] at ha
    rw [← ha]
    intro hp
    cases hk : s.killThread <;> simp [hk, Place.deaf] at hp
  | fetching =>
    simp only [hplace] at ha
    cases hq : s.daemon.taskQ with
    | nil =>
      rw [getTask, hq] at ha
      rw [← Option.some.inj ha]
      exact fun _ _ => hq
    | cons τ q =>
      rw [getTask, hq] at ha
      rw [← Option.some.inj ha]
      intro hp
      simp [Place.deaf] at hp
  | running τ =>
    simp only [hplace] at ha
    obtain ⟨d, -, rfl⟩ := Option.map_eq_some_iff.1 ha
    intro hp
    simp [Place.deaf] at hp

theorem Inv.step (h : Inv s) (hok : Heard a s) (ha : step p a s = some t) : Inv t := by
  cases a with
  | queue τ =>
    rw [← Option.some.inj ha]
    exact fun _ hk => absurd hk (Nat.succ_ne_zero _)
  | thread mem clk => exact Inv.advance h ha
  | kill =>
    rw [← Option.some.inj ha]
    intro hp hk
    refine h ?_ hk
    -- a thread that is asleep is woken
    cases hplace : s.place <;> simp_all [Place.wake, Place.deaf]
  | kick =>
    rw [Looping.step] at ha
    split at ha
    · cases ha
    · rw [← Option.some.inj ha]
      intro hp hk
      have hone : s.kicks = 1 := by
        have : s.kicks - 1 = 0 := hk
        omega
      refine hok ?_ hone
      cases hplace : s.place <;> simp_all [Place.wake, Place.deaf]

/-- Where no kick is lost, no task waits for a sleeping thread. -/
theorem none_waits {mem : Mem} {clk : Clock} {names : List (U32 × U32)} {actions : List LoopAction}
    (hok : AllSteps (step p) Heard actions (start p mem clk names)) :
    Along (step p) NoneWaits actions (start p mem clk names) := by
  have hstart : Inv (start p mem clk names) := fun _ _ => (NoFlood.initModule p mem clk names).taskQ
  exact (along_of_step (fun _ _ _ h hok ha => Inv.step h hok ha) hstart hok).mono
    fun _ h => h.noneWaits

/-- A last kick that is lost leaves its task to a thread that sleeps. -/
theorem not_noneWaits_of_not_heard {mem : Mem} {clk : Clock} (hplace : s.place = .falling)
    (h : ¬Heard .kick s) :
    ∃ t, exec (step p) [.kick, .thread mem clk] s = some t ∧ ¬t.NoneWaits := by
  simp only [Heard, Classical.not_imp] at h
  obtain ⟨-, hone, hq⟩ := h
  refine ⟨{ s with place := .asleep, kicks := 0 }, ?_, fun hn => hq (hn rfl rfl)⟩
  rw [exec_cons, step, hone, if_neg Nat.one_ne_zero, Option.bind_some, exec_cons, step,
    advance, hplace]
  rfl

/-! ## Two runs -/

/-- A task that the packet hook queues. -/
def someTask : Task := createTask .fileReqProcess ⟨0, 0⟩

def turn : LoopAction := .thread .plenty ⟨0, 0⟩

/-- The task comes when the thread has gone to sleep. -/
def promptRun : List LoopAction := [turn, turn, .queue someTask, .kick, turn, turn]

/-- The task comes just before the thread goes to sleep. -/
def missedRun : List LoopAction := [turn, .queue someTask, .kick, turn]

theorem none_waits_promptRun : Along (step testNode) NoneWaits promptRun
    (start testNode .plenty ⟨0, 0⟩ []) :=
  none_waits (by decide +kernel)

/-- The kick of the task is lost, and the thread sleeps. -/
theorem not_none_waits_missedRun :
    ¬∀ (p : Params) (mem : Mem) (clk : Clock)
      (names : List (U32 × U32)) (actions : List LoopAction),
      Along (step p) NoneWaits actions (start p mem clk names) := by
  intro h
  have hrun : (exec (step testNode) missedRun (start testNode .plenty ⟨0, 0⟩ [])).any
      (fun t => decide ¬t.NoneWaits) = true := by decide +kernel
  obtain ⟨t, ht, hq⟩ := (Option.any_eq_true _ _).1 hrun
  have hnone : NoneWaits t :=
    Along.reached (by rw [List.append_nil]; exact h testNode _ _ _ missedRun) ht
  exact of_decide_eq_true hq hnone

end Looping

end MobileCloudCaching.Caching
