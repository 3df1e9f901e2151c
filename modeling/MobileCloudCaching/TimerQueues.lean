import MobileCloudCaching.Timer
import MobileCloudCaching.Aodv.Queue
import MobileCloudCaching.Caching.Queue

/-!
# The timer queues of the two modules

The timer queue in memory with the tasks of each module.  The lists that
stand for it elsewhere are what it holds.
-/

namespace MobileCloudCaching

open Transition

/-! ## `kaodv` -/

namespace Aodv

/-- The test of `delete_timer`, for an id and a type. -/
def Task.matches (key : U32 × TaskType) (t : Task) : Bool := t.isFor key.1 key.2

/-- One call of `queue_timer` (with the allocation of its task),
`delete_timer` or `timer_queue_signal`. -/
def timerStep : Timer.Action Task (U32 × TaskType) → Timer.Timers Task (U32 × TaskType) →
    Option (Timer.Timers Task (U32 × TaskType)) := Timer.step Task.time Task.matches

/-- The same call where the queue is a list. -/
def listStep : Timer.Action Task (U32 × TaskType) → Router → Router
  | .insert _ x, s => queueTimer x s
  | .delete key, s => deleteTimer key.1 key.2 s
  | .signal currtime, s => timerQueueSignal ⟨currtime, 0⟩ s

/-- The list holds the tasks that are on the queue in memory, and the task queue those handed
over. -/
structure Follows (m : Timer.Timers Task (U32 × TaskType)) (s : Router) : Prop where
  timerQueue : s.timerQueue = m.queue.map Prod.fst
  taskQ : s.taskQ = m.handed.map fun h => h.1.1

theorem Follows.step {m m' : Timer.Timers Task (U32 × TaskType)} {s : Router}
    {a : Timer.Action Task (U32 × TaskType)} (h : Follows m s)
    (hk : Timer.Kept Task.time Task.matches m) (hnear : Timer.Near Task.time a m)
    (hs : timerStep a m = some m') : Follows m' (listStep a s) := by
  obtain ⟨⟨l, hl⟩, -⟩ := hk
  cases a with
  | insert a x =>
    obtain ⟨t, l', ht, -, hqueue, -, hhanded, -⟩ := hl.insertTimer Task.time hnear.1 x
    obtain rfl : t = m' := Option.some.inj (ht.symm.trans hs)
    refine ⟨?_, by rw [hhanded]; exact h.taskQ⟩
    rw [hqueue, List.map_append, List.map_cons, listStep, queueTimer,
      List.orderedInsert_eq_take_drop, h.timerQueue, List.takeWhile_map, List.dropWhile_map]
    simp [Function.comp_def]
  | delete key =>
    obtain ⟨t, l', ht, -, hqueue, -, hhanded, -⟩ := hl.delete Task.matches key
    obtain rfl : t = m' := Option.some.inj (ht.symm.trans hs)
    refine ⟨?_, by rw [hhanded]; exact h.taskQ⟩
    rw [hqueue, listStep, deleteTimer, h.timerQueue, List.filter_map]
    rfl
  | signal currtime =>
    obtain ⟨t, l', ht, -, hqueue, -, -, hhanded⟩ := hl.signal Task.time currtime
    obtain rfl : t = m' := Option.some.inj (ht.symm.trans hs)
    constructor
    · rw [hqueue, listStep, timerQueueSignal, h.timerQueue, List.dropWhile_map]
      rfl
    · rw [hhanded, listStep, timerQueueSignal, h.timerQueue, h.taskQ, List.takeWhile_map,
        List.map_append, List.map_map]
      rfl

theorem follows_run {actions : List (Timer.Action Task (U32 × TaskType))}
    {m : Timer.Timers Task (U32 × TaskType)}
    (hnear : AllSteps timerStep (Timer.Near Task.time) actions {})
    (he : exec timerStep actions {} = some m) :
    Follows m (actions.foldl (fun s a => listStep a s) {}) :=
  exec_follows (I := Timer.Kept Task.time Task.matches) (fun _ _ _ h hn ht => (h.keep hn ht).1)
    (fun _ _ _ _ h hn ht hf => hf.step h hn ht) Timer.kept_start hnear ⟨rfl, rfl⟩ he

end Aodv

/-! ## `caching` -/

namespace Caching

/-- There is no `delete_timer`, and so there are no keys for it. -/
def timerStep : Timer.Action Task Empty → Timer.Timers Task Empty →
    Option (Timer.Timers Task Empty) :=
  Timer.step Task.time fun key _ => key.elim

/-- The same call where the queue is a list. -/
def listStep (p : Params) (jiffies : ℕ) : Timer.Action Task Empty → Daemon → Daemon
  | .insert _ x, d => queueTimer x d
  | .delete key, _ => key.elim
  | .signal currtime, d => timerQueueSignal p ⟨currtime, jiffies⟩ d

/-- The list holds the tasks that are on the queue in memory, and the task queue those handed
over. -/
structure Follows (m : Timer.Timers Task Empty) (d : Daemon) : Prop where
  timerQueue : d.timerQueue = m.queue.map Prod.fst
  taskQ : d.taskQ = m.handed.map fun h => h.1.1

theorem insertByTime_eq (new : Task) (l : List Task) : insertByTime new l =
    l.takeWhile (fun t => timeAfter new.time t.time) ++ new :: l.dropWhile fun t =>
      timeAfter new.time t.time := by
  induction l with
  | nil => rfl
  | cons t l ih =>
    rw [insertByTime]
    by_cases h : timeAfter new.time t.time = true
    · rw [if_pos h, ih, List.takeWhile_cons_of_pos (by exact h),
        List.dropWhile_cons_of_pos (by exact h)]
      rfl
    · rw [if_neg h, List.takeWhile_cons_of_neg (by exact h),
        List.dropWhile_cons_of_neg (by exact h)]
      rfl

theorem Follows.step {p : Params} {jiffies : ℕ} {m m' : Timer.Timers Task Empty} {d : Daemon}
    {a : Timer.Action Task Empty} (h : Follows m d)
    (hk : Timer.Kept Task.time (fun key _ => key.elim) m) (hnear : Timer.Near Task.time a m)
    (hs : timerStep a m = some m') : Follows m' (listStep p jiffies a d) := by
  obtain ⟨⟨l, hl⟩, -⟩ := hk
  cases a with
  | insert a x =>
    obtain ⟨t, l', ht, -, hqueue, -, hhanded, -⟩ := hl.insertTimer Task.time hnear.1 x
    obtain rfl : t = m' := Option.some.inj (ht.symm.trans hs)
    refine ⟨?_, by rw [hhanded]; exact h.taskQ⟩
    rw [hqueue, List.map_append, List.map_cons, listStep, queueTimer, insertByTime_eq, h.timerQueue,
      List.takeWhile_map, List.dropWhile_map]
    rfl
  | delete key => exact key.elim
  | signal currtime =>
    obtain ⟨t, l', ht, -, hqueue, -, -, hhanded⟩ := hl.signal Task.time currtime
    obtain rfl : t = m' := Option.some.inj (ht.symm.trans hs)
    have hupdate : ∀ (clk : Clock) (d : Daemon), (updateTimerQueue p clk d).timerQueue =
        d.timerQueue ∧
        (updateTimerQueue p clk d).taskQ = d.taskQ := fun clk d => by
      obtain ⟨c, hc⟩ := updateTimerQueue_eq p clk d
      rw [hc]
      exact ⟨rfl, rfl⟩
    constructor
    · rw [hqueue, listStep, timerQueueSignal, (hupdate _ _).1, h.timerQueue, List.dropWhile_map]
      rfl
    · rw [hhanded, listStep, timerQueueSignal, (hupdate _ _).2, h.timerQueue, h.taskQ,
        List.takeWhile_map, List.map_append, List.map_map]
      rfl

theorem follows_run {p : Params} {jiffies : ℕ} {actions : List (Timer.Action Task Empty)}
    {m : Timer.Timers Task Empty} {d : Daemon} (hd : d.timerQueue = [] ∧ d.taskQ = [])
    (hnear : AllSteps timerStep (Timer.Near Task.time) actions {})
    (he : exec timerStep actions {} = some m) :
    Follows m (actions.foldl (fun d a => listStep p jiffies a d) d) := by
  have hkeep : ∀ a m m', Timer.Kept Task.time (fun (key : Empty) _ => key.elim) m →
      Timer.Near Task.time a m →
      timerStep a m = some m' → Timer.Kept Task.time (fun (key : Empty) _ => key.elim) m' :=
    fun _ _ _ h hn ht => (h.keep hn ht).1
  exact exec_follows hkeep (fun _ _ _ _ h hn ht hf => hf.step h hn ht) Timer.kept_start
    hnear ⟨hd.1, hd.2⟩ he

end Caching

/-! ## Both -/

/-- In every run from the empty queue, with due times near each other and the clock, each call
returns and has its effect, and no task is lost, duplicated or handed over early. -/
theorem timers_conserved :
    (∀ actions : List (Timer.Action Aodv.Task (U32 × Aodv.TaskType)),
      AllSteps Aodv.timerStep (Timer.Near Aodv.Task.time) actions {} →
        (∃ t, exec Aodv.timerStep actions {} = some t) ∧
          Along Aodv.timerStep (Timer.Conserved Aodv.Task.time Aodv.Task.matches) actions {} ∧
            AllSteps Aodv.timerStep (fun a s => ∀ t ∈ Aodv.timerStep a s,
              Timer.Effect Aodv.Task.time Aodv.Task.matches a s t) actions {}) ∧
    ∀ actions : List (Timer.Action Caching.Task Empty),
      AllSteps Caching.timerStep (Timer.Near Caching.Task.time) actions {} →
        (∃ t, exec Caching.timerStep actions {} = some t) ∧
          Along Caching.timerStep (Timer.Conserved Caching.Task.time fun key _ => key.elim)
            actions {} ∧
            AllSteps Caching.timerStep (fun a s => ∀ t ∈ Caching.timerStep a s,
              Timer.Effect Caching.Task.time (fun key _ => key.elim) a s t) actions {} :=
  ⟨fun _ hnear => Timer.conserved hnear, fun _ hnear => Timer.conserved hnear⟩

/-- A clean-up, and time-outs of two neighbours; one is cancelled before any comes due. -/
def timeoutRun : List (Timer.Action Aodv.Task (U32 × Aodv.TaskType)) :=
  [.insert 7 (Aodv.timerTask ⟨0, 0⟩ .cleanup 1000 1),
    .insert 3 (Aodv.timerTask ⟨0, 0⟩ .neighbor 1000 2),
    .insert 5 (Aodv.timerTask ⟨1, 0⟩ .neighbor 500 3), .delete (2, .neighbor), .signal 501]

theorem timers_conserved_timeoutRun : (∃ t, exec Aodv.timerStep timeoutRun {} = some t) ∧
    Along Aodv.timerStep (Timer.Conserved Aodv.Task.time Aodv.Task.matches) timeoutRun {} ∧
      AllSteps Aodv.timerStep (fun a s => ∀ t ∈ Aodv.timerStep a s,
        Timer.Effect Aodv.Task.time Aodv.Task.matches a s t) timeoutRun {} :=
  timers_conserved.1 timeoutRun (by decide +kernel)

end MobileCloudCaching
