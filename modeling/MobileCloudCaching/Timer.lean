import MobileCloudCaching.Kernel
import MobileCloudCaching.Library.Linked
import MobileCloudCaching.Library.Transition
import Mathlib.Data.List.Sort
import Mathlib.Data.List.TakeWhile

/-!
# The timer queue in memory (`timer_queue.c`, `cTimer.c`)

Both modules keep their timers in the same singly linked list, and but for `delete_timer`, which
only one of them has, their code is the same.  Here the tasks are cells of memory: `α` is what a
task holds, `time` its due time, and `isFor` the test of `delete_timer` for a key in `ι`.  A loop
that meets more cells than there are has no end.
-/

namespace MobileCloudCaching.Timer

open Linked Transition

variable {α ι : Type}

/-- A task in memory, with the number (ghost) that it got when it was inserted. -/
structure Cell (α : Type) where
  task : α × ℕ
  next : Option ℕ
  prev : Option ℕ
  deriving DecidableEq

structure Timers (α ι : Type) where
  mem : Memory (Cell α) := {}
  /-- `timer_queue` -/
  timerQueue : Option ℕ := none
  /-- `task_q` -/
  taskQ : Option ℕ := none
  /-- `task_end` -/
  taskEnd : Option ℕ := none
  /-- ghost: the tasks inserted -/
  inserted : List α := []
  /-- ghost: the tasks given to `insert_task_from_timer`, with the clock value -/
  handed : List ((α × ℕ) × ℕ) := []
  /-- ghost: the tasks that `delete_timer` has removed, with its key -/
  deleted : List ((α × ℕ) × ι) := []
  deriving DecidableEq

/-- The tasks from `timer_queue` on. -/
def Timers.queue (s : Timers α ι) : List (α × ℕ) :=
  (toList Cell.task Cell.next s.mem s.mem.cells.length s.timerQueue).map Prod.snd

section Code

variable (time : α → ℕ) (isFor : ι → α → Bool)

def queueTimer (newTimer : ℕ) (s : Timers α ι) : Option (Timers α ι) := do
  let new ← s.mem.get newTimer
  let (prevTimer, tmpTimer) ← walk Cell.task Cell.next
    (fun x => timeAfter (time new.task.1) (time x.1)) s.mem
    s.mem.cells.length none s.timerQueue
  if s.timerQueue = none ∨ s.timerQueue = tmpTimer then
    let mem ← s.mem.modify (some newTimer) fun n => { n with next := s.timerQueue }
    return { s with mem := mem, timerQueue := some newTimer }
  else
    match tmpTimer with
    | none =>
      let mem ← s.mem.modify (some newTimer) fun n => { n with next := none }
      let mem ← mem.modify prevTimer fun n => { n with next := some newTimer }
      return { s with mem := mem }
    | some _ =>
      let prev ← prevTimer.bind s.mem.get
      let mem ← s.mem.modify (some newTimer) fun n => { n with next := prev.next }
      let mem ← mem.modify prevTimer fun n => { n with next := some newTimer }
      return { s with mem := mem }

/-- `create_task`, for which `kmalloc` has found the address `a`, and `queue_timer`. -/
def insertTimer (a : ℕ) (x : α) (s : Timers α ι) : Option (Timers α ι) :=
  if (s.mem.get a).isSome then none
  else
    queueTimer time a { s with
      mem := s.mem.alloc a { task := (x, s.inserted.length), next := none, prev := none }
      inserted := s.inserted ++ [x] }

def firstTimerDue (currtime : ℕ) (s : Timers α ι) : Option (Option ℕ × Timers α ι) :=
  match s.timerQueue with
  | none => some (none, s)
  | some tmpTask => do
    let n ← s.mem.get tmpTask
    if timeBeforeEq (time n.task.1) currtime then
      return (some tmpTask, { s with timerQueue := n.next })
    else return (none, s)

/-- `queue_task` -/
def queueTask (newEntry : ℕ) (s : Timers α ι) : Option (Timers α ι) := do
  let mem ← s.mem.modify (some newEntry) fun n => { n with next := s.taskQ, prev := none }
  let mem ← if s.taskQ = none then some mem else mem.modify s.taskQ fun n =>
    { n with prev := some newEntry }
  return { s with
    mem := mem, taskQ := some newEntry, taskEnd :=
      if s.taskEnd = none then some newEntry else s.taskEnd }

/-- `insert_task_from_timer` -/
def insertTaskFromTimer (currtime timerTask : ℕ) (s : Timers α ι) : Option (Timers α ι) := do
  let n ← s.mem.get timerTask
  queueTask timerTask { s with handed := s.handed ++ [(n.task, currtime)] }

/-- The loop of `timer_queue_signal`. -/
def signalDue (currtime : ℕ) : ℕ → Timers α ι → Option (Timers α ι)
  | 0, _ => none
  | fuel + 1, s => do
    match ← firstTimerDue time currtime s with
    | (none, s) => return s
    | (some tmpTask, s) => signalDue currtime fuel (← insertTaskFromTimer currtime tmpTask s)

def timerQueueSignal (currtime : ℕ) (s : Timers α ι) : Option (Timers α ι) :=
  signalDue time currtime (s.mem.cells.length + 1) s

/-- The writes of `delete_timer` that take a task off the list: the
one before it, if any, leads to `next`. -/
def unlink (prevTask next : Option ℕ) (s : Timers α ι) : Option (Timers α ι) :=
  match prevTask with
  | none => some { s with timerQueue := next }
  | some _ =>
      (s.mem.modify prevTask fun prev => { prev with next := next }).map fun mem =>
        { s with mem := mem }

/-- The loop of `delete_timer`. -/
def deleteFrom (id : ι) : ℕ → Option ℕ → Option ℕ → Timers α ι → Option (Timers α ι)
  | _, _, none, s => some s
  | 0, _, some _, _ => none
  | fuel + 1, prevTask, some tmpTask, s => do
    let n ← s.mem.get tmpTask
    if isFor id n.task.1 then
      let s ← unlink prevTask n.next s
      deleteFrom id fuel prevTask n.next
        { s with mem := s.mem.free tmpTask, deleted := s.deleted ++ [(n.task, id)] }
    else deleteFrom id fuel (some tmpTask) n.next s

def deleteTimer (id : ι) (s : Timers α ι) : Option (Timers α ι) :=
  deleteFrom isFor id s.mem.cells.length none s.timerQueue s

/-! ## Steps -/

inductive Action (α ι : Type)
  | insert (a : ℕ) (x : α)
  | delete (id : ι)
  | signal (currtime : ℕ)

def step : Action α ι → Timers α ι → Option (Timers α ι)
  | .insert a x, s => insertTimer time a x s
  | .delete id, s => deleteTimer isFor id s
  | .signal currtime, s => timerQueueSignal time currtime s

/-- The two times are less than half the circle apart. -/
def Within (a b : ℕ) : Prop := a < b + 2 ^ 31 ∧ b < a + 2 ^ 31

/-- The step can be taken: `kmalloc` finds memory that is not in use, and the due times on the
queue are near the time that they are compared with. -/
def Near : Action α ι → Timers α ι → Prop
  | .insert a x, s => s.mem.get a = none ∧ ∀ e ∈ s.queue, Within (time e.1) (time x)
  | .delete _, _ => True
  | .signal currtime, s => ∀ e ∈ s.queue, Within (time e.1) currtime

instance (a b : ℕ) : Decidable (Within a b) := inferInstanceAs (Decidable (_ ∧ _))

instance [DecidableEq α] : ∀ (a : Action α ι) (s : Timers α ι), Decidable (Near time a s)
  | .insert a x, s => inferInstanceAs
    (Decidable (s.mem.get a = none ∧ ∀ e ∈ s.queue, Within (time e.1) (time x)))
  | .delete _, _ => isTrue trivial
  | .signal currtime, s => inferInstanceAs (Decidable (∀ e ∈ s.queue, Within (time e.1) currtime))

/-- What is said of every state: the queue is in order of due times, each inserted task is on the
queue or has been handed over or deleted, once, and none of these too early or without cause. -/
structure Conserved (s : Timers α ι) : Prop where
  sorted : s.queue.Pairwise fun e e' => time e.1 ≤ time e'.1
  accounted : (s.queue ++ (s.handed.map Prod.fst ++ s.deleted.map Prod.fst)).Perm s.inserted.zipIdx
  notEarly : ∀ h ∈ s.handed, time h.1.1 ≤ h.2
  matched : ∀ d ∈ s.deleted, isFor d.2 d.1.1 = true

/-- What is said of every step. -/
def Effect : Action α ι → Timers α ι → Timers α ι → Prop
  | .insert _ x, s, t => t.queue.Perm ((x, s.inserted.length) :: s.queue) ∧
      t.handed = s.handed ∧ t.deleted = s.deleted
  | .delete id, s, t => t.queue = s.queue.filter (fun e => !isFor id e.1) ∧ t.handed = s.handed
  | .signal currtime, s, t => (∀ e ∈ t.queue, currtime < time e.1) ∧ t.deleted = s.deleted

end Code

/-! ## The list in memory -/

/-- The cells of `l`, and no others, are on the timer queue. -/
structure Holds (s : Timers α ι) (l : List (ℕ × α × ℕ)) : Prop where
  seg : Seg Cell.task Cell.next (fun _ _ => True) s.mem none s.timerQueue l none
  nodup : (l.map Prod.fst).Nodup
  taskQ : ∀ a ∈ s.taskQ, (s.mem.get a).isSome = true ∧ a ∉ l.map Prod.fst

namespace Holds

variable (time : α → ℕ) (isFor : ι → α → Bool) {s t : Timers α ι} {l : List (ℕ × α × ℕ)} {a : ℕ}

theorem queue (h : Holds s l) : s.queue = l.map Prod.snd := by
  rw [Timers.queue, h.seg.toList (h.seg.length_le h.nodup)]

/-- `queue_timer` puts a task that is in memory in front of the first one that is not earlier. -/
theorem queueTimer (h : Holds s l) {n : Cell α} (hget : s.mem.get a = some n)
    (ha : a ∉ l.map Prod.fst) (hq : a ∉ s.taskQ) : ∃ mem p, Timer.queueTimer time a s =
    some { s with mem := mem, timerQueue := p } ∧
      Holds { s with mem := mem, timerQueue := p }
        (l.takeWhile (fun c => timeAfter (time n.task.1) (time c.2.1)) ++ (a, n.task) ::
          l.dropWhile fun c => timeAfter (time n.task.1) (time c.2.1)) := by
  have hwalk :=
    h.seg.walk (fun x => timeAfter (time n.task.1) (time x.1)) (h.seg.length_le h.nodup) none
  have hl := l.takeWhile_append_dropWhile (p := fun c => timeAfter (time n.task.1) (time c.2.1))
  generalize l.takeWhile (fun c => timeAfter (time n.task.1) (time c.2.1)) = l₁,
    l.dropWhile (fun c => timeAfter (time n.task.1) (time c.2.1)) = l₂ at hwalk hl ⊢
  subst hl
  rw [Timer.queueTimer, hget]
  simp only [Option.bind_eq_bind, Option.bind_some, hwalk]
  rcases List.eq_nil_or_concat' l₁ with rfl | ⟨l₀, ⟨c, y⟩, rfl⟩
  · have hstart : s.timerQueue = firstOf l₂ none := h.seg.start
    rw [lastOf_nil, if_pos (.inr hstart), Memory.modify_some hget]
    refine ⟨_, _, rfl, ?_, ?_, ?_⟩
    · have hrest :=
        (h.seg.set_of_not_mem (n := { n with next := s.timerQueue }) ha).change_before (some a)
        fun _ _ => trivial
      exact .cons' (Memory.get_set_self hget) rfl trivial hrest
    · exact List.nodup_cons.2 ⟨ha, h.nodup⟩
    · intro e he
      obtain ⟨hsome, hnot⟩ := h.taskQ e he
      refine ⟨Memory.isSome_get_set.trans hsome, fun hin => ?_⟩
      rcases List.mem_cons.1 hin with rfl | hin
      · exact hq he
      · exact hnot hin
  · obtain ⟨q, h₁, h₂⟩ := h.seg.split
    obtain ⟨nc, hc, rfl, -, rfl⟩ := h₁.last_inv
    have hstart : nc.next = firstOf l₂ none := h₂.start
    obtain ⟨hc₀, hc₂⟩ := not_mem_of_nodup h.nodup
    have hnot := ha
    rw [List.map_append, List.mem_append, not_or] at hnot
    have hca : c ≠ a := fun he => hnot.1 (he ▸ by simp)
    -- the new cell leads to the rest, and the cell before leads to it
    have hmem : Holds
        { s with mem := (s.mem.set a { n with next := nc.next }).set c { nc with next := some a } }
        ((l₀ ++ [(c, nc.task)]) ++ (a, n.task) :: l₂) := by
      refine ⟨?_, ?_, fun e he => ?_⟩
      · have hbefore := (h₁.set_of_not_mem (n := { n with next := nc.next })
          hnot.1).set_last (n := { nc with next := some a }) hc₀ rfl fun _ _ _ _ => trivial
        have hrest := (h₂.set_of_not_mem (n := { n with next := nc.next }) hnot.2).set_of_not_mem
          (n := { nc with next := some a }) hc₂
        exact hbefore.append (.cons' ((Memory.get_set_ne hca.symm).trans (Memory.get_set_self hget))
          rfl trivial
          (hrest.change_before _ fun _ _ => trivial))
      · exact nodup_middle.2 ⟨ha, h.nodup⟩
      · obtain ⟨hsome, hout⟩ := h.taskQ e he
        refine ⟨Memory.isSome_get_set.trans (Memory.isSome_get_set.trans hsome), fun hin => ?_⟩
        rcases mem_middle.1 hin with rfl | hin
        · exact hq he
        · exact hout hin
    obtain ⟨hsome, hother⟩ := firstOf_ne (by simp) h.nodup
    rw [← h.seg.start] at hsome hother
    have hlast : lastOf none (l₀ ++ [(c, nc.task)]) = some c := lastOf_append _ _ _
    have hwrite : ∀ next, (s.mem.set a { n with next := next }).get c = some nc := fun next =>
      (Memory.get_set_ne hca).trans hc
    rw [if_neg (not_or.2 ⟨hsome, hother⟩), hlast]
    refine ⟨_, _, ?_, hmem⟩
    cases hrest : firstOf l₂ none with
    | none => simp [Memory.modify_some hget, Memory.modify_some (hwrite _), hstart, hrest]
    | some e => simp [hc, Memory.modify_some hget, Memory.modify_some (hwrite _)]

/-- A task is taken off the list and freed. -/
theorem unlink {l₁ l₂ : List (ℕ × α × ℕ)} {n : Cell α} (h : Holds s (l₁ ++ (a, n.task) :: l₂))
    (hget : s.mem.get a = some n) : ∃ mem p,
      Timer.unlink (lastOf none l₁) n.next s = some { s with mem := mem, timerQueue := p } ∧
        Holds { s with mem := mem.free a, timerQueue := p } (l₁ ++ l₂) := by
  obtain ⟨q, h₁, hcell⟩ := h.seg.split
  obtain ⟨rfl, n', hget', -, -, h₂⟩ := hcell.cons_inv
  obtain rfl : n = n' := Option.some.inj (hget.symm.trans hget')
  obtain ⟨ha, hnodup⟩ := nodup_middle.1 h.nodup
  have hout : ∀ e ∈ s.taskQ, (s.mem.get e).isSome = true ∧ e ≠ a ∧ e ∉ (l₁ ++ l₂).map Prod.fst :=
    fun e he => by
    obtain ⟨hsome, hnot⟩ := h.taskQ e he
    exact ⟨hsome, not_or.1 fun hin => hnot (mem_middle.2 hin)⟩
  rcases List.eq_nil_or_concat' l₁ with rfl | ⟨l₀, ⟨c, y⟩, rfl⟩
  · refine ⟨_, _, rfl, ?_, hnodup, fun e he => ?_⟩
    · exact (h₂.free_of_not_mem ha).change_before _ fun _ _ => trivial
    · obtain ⟨hsome, hne, hnot⟩ := hout e he
      exact ⟨(Memory.get_free_ne hne).symm ▸ hsome, hnot⟩
  · obtain ⟨nc, hc, rfl, -, -⟩ := h₁.last_inv
    obtain ⟨hc₀, hc₂⟩ := not_mem_of_nodup hnodup
    have hlast : lastOf none (l₀ ++ [(c, nc.task)]) = some c := lastOf_append _ _ _
    rw [List.map_append, List.mem_append, not_or] at ha
    refine ⟨s.mem.set c { nc with next := n.next }, s.timerQueue, ?_, ?_, hnodup, fun e he => ?_⟩
    · rw [hlast, Timer.unlink, Memory.modify_some hc]
      rfl
    · have hbefore :=
        (h₁.set_last (n := { nc with next := n.next }) hc₀ rfl fun _ _ _ _ =>
          trivial).free_of_not_mem
        ha.1
      have hrest := (h₂.set_of_not_mem (n := { nc with next := n.next }) hc₂).free_of_not_mem ha.2
      exact hbefore.append (hrest.change_before _ fun _ _ => trivial)
    · obtain ⟨hsome, hne, hnot⟩ := hout e he
      refine ⟨?_, hnot⟩
      rw [Memory.get_free_ne hne, Memory.isSome_get_set]
      exact hsome

/-- The loop of `delete_timer` keeps what it has passed and takes the matching tasks out of the
rest. -/
theorem deleteFrom {l₁ l₂ : List (ℕ × α × ℕ)} {id : ι} {fuel : ℕ} (h : Holds s (l₁ ++ l₂))
    (hfuel : l₂.length ≤ fuel) :
    ∃ mem p, Timer.deleteFrom isFor id fuel (lastOf none l₁) (firstOf l₂ none) s = some { s with
        mem := mem, timerQueue := p,
        deleted := s.deleted ++ (l₂.filter fun c => isFor id c.2.1).map fun c => (c.2, id) } ∧
      Holds { s with mem := mem, timerQueue := p } (l₁ ++ l₂.filter fun c => !isFor id c.2.1) := by
  induction l₂ generalizing l₁ s fuel with
  | nil =>
    refine ⟨s.mem, s.timerQueue, ?_, h⟩
    cases fuel <;> simp [Timer.deleteFrom]
  | cons c l₂ ih =>
    obtain ⟨a, x⟩ := c
    obtain ⟨q, -, hcell⟩ := h.seg.split
    obtain ⟨-, n, hget, rfl, -, h₂⟩ := hcell.cons_inv
    cases fuel with
    | zero => exact absurd hfuel (Nat.not_succ_le_zero _)
    | succ fuel =>
      have hfuel := Nat.le_of_succ_le_succ hfuel
      rw [firstOf_cons, Timer.deleteFrom]
      simp only [Option.bind_eq_bind, hget, Option.bind_some]
      by_cases hfor : isFor id n.task.1 = true
      · obtain ⟨mem, p, hunlink, hl⟩ := h.unlink hget
        have hl' : Holds { s with
            mem := mem.free a, timerQueue := p, deleted := s.deleted ++
                [(n.task, id)] } (l₁ ++ l₂) :=
          ⟨hl.seg, hl.nodup, hl.taskQ⟩
        obtain ⟨mem', p', hrest, hkeep⟩ := ih hl' hfuel
        rw [if_pos hfor, hunlink, List.filter_cons_of_pos (by exact hfor),
          List.filter_cons_of_neg (by simp [hfor])]
        refine ⟨mem', p', ?_, ⟨hkeep.seg, hkeep.nodup, hkeep.taskQ⟩⟩
        rw [h₂.start, Option.bind_some, hrest]
        simp
      · have hl : Holds s ((l₁ ++ [(a, n.task)]) ++ l₂) := by simpa using h
        obtain ⟨mem', p', hrest, hkeep⟩ := ih hl hfuel
        rw [if_neg hfor, List.filter_cons_of_neg (by exact hfor),
          List.filter_cons_of_pos (by simpa using hfor), h₂.start]
        rw [lastOf_append] at hrest
        exact ⟨mem', p', hrest, by simpa using hkeep⟩

theorem deleteTimer (h : Holds s l) (id : ι) : ∃ mem p, Timer.deleteTimer isFor id s = some { s with
        mem := mem, timerQueue := p,
        deleted := s.deleted ++ (l.filter fun c => isFor id c.2.1).map fun c => (c.2, id) } ∧
      Holds { s with mem := mem, timerQueue := p } (l.filter fun c => !isFor id c.2.1) := by
  rw [Timer.deleteTimer, h.seg.start]
  exact Holds.deleteFrom isFor (show Holds s ([] ++ l) from h) (h.seg.length_le h.nodup)

/-- The first task is taken off the list and put on the task queue. -/
theorem insertTaskFromTimer {n : Cell α} (h : Holds s ((a, n.task) :: l))
    (hget : s.mem.get a = some n) (currtime : ℕ) :
    ∃ mem e, Timer.insertTaskFromTimer currtime a { s with timerQueue := n.next } = some { s with
        mem := mem, timerQueue := n.next, taskQ := some a, taskEnd := e,
        handed := s.handed ++ [(n.task, currtime)] } ∧
      Holds { s with mem := mem, timerQueue := n.next, taskQ := some a } l := by
  obtain ⟨-, n', hget', -, -, hl⟩ := h.seg.cons_inv
  obtain rfl : n = n' := Option.some.inj (hget.symm.trans hget')
  obtain ⟨ha, hnodup⟩ := List.nodup_cons.1 h.nodup
  have hseg :=
    (hl.set_of_not_mem (n := { n with next := s.taskQ, prev := none }) ha).change_before none
    fun _ _ => trivial
  have hsome : (s.mem.set a { n with next := s.taskQ, prev := none }).get a = some _ :=
    Memory.get_set_self hget
  rw [Timer.insertTaskFromTimer]
  simp only [Option.bind_eq_bind, hget, Option.bind_some, queueTask, Memory.modify_some hget]
  cases hq : s.taskQ with
  | none =>
    rw [hq] at hseg hsome
    refine ⟨_, _, rfl, hseg, hnodup, fun e he => ?_⟩
    obtain rfl := Option.some.inj he
    exact ⟨by rw [hsome]; rfl, ha⟩
  | some b =>
    obtain ⟨hb, hbl⟩ := h.taskQ b hq
    rw [hq] at hseg hsome
    rw [← Memory.isSome_get_set (n := { n with next := some b, prev := none })] at hb
    obtain ⟨nb, hnb⟩ := Option.isSome_iff_exists.1 hb
    rw [if_neg (Option.some_ne_none b), Memory.modify_some hnb]
    refine ⟨_, _, rfl, hseg.set_of_not_mem fun hin => hbl (List.mem_cons_of_mem _ hin),
      hnodup, fun e he => ?_⟩
    obtain rfl := Option.some.inj he
    exact ⟨by rw [Memory.isSome_get_set, hsome]; rfl, ha⟩

/-- The loop of `timer_queue_signal` hands over what is due at the head of the list. -/
theorem signalDue {currtime fuel : ℕ} (h : Holds s l) (hfuel : l.length < fuel) :
    ∃ mem p q e, Timer.signalDue time currtime fuel s = some { s with
        mem := mem, timerQueue := p, taskQ := q, taskEnd := e,
        handed := s.handed ++
          (l.takeWhile fun c => timeBeforeEq (time c.2.1) currtime).map fun c => (c.2, currtime) } ∧
      Holds { s with mem := mem, timerQueue := p, taskQ := q }
        (l.dropWhile fun c => timeBeforeEq (time c.2.1) currtime) := by
  induction l generalizing s fuel with
  | nil =>
    have hnil : s.timerQueue = none := h.seg.nil_inv
    cases fuel with
    | zero => exact absurd hfuel (Nat.not_lt_zero _)
    | succ fuel =>
      refine ⟨s.mem, s.timerQueue, s.taskQ, s.taskEnd, ?_, h⟩
      simp only [Timer.signalDue, firstTimerDue, hnil, Option.bind_eq_bind, Option.bind_some,
        Option.pure_def, List.takeWhile_nil, List.map_nil, List.append_nil]
      rw [← hnil]
  | cons c l ih =>
    obtain ⟨a, x⟩ := c
    obtain ⟨hstart, n, hget, rfl, -, -⟩ := h.seg.cons_inv
    cases fuel with
    | zero => exact absurd hfuel (Nat.not_lt_zero _)
    | succ fuel =>
      rw [Timer.signalDue, firstTimerDue, hstart]
      simp only [Option.bind_eq_bind, hget, Option.bind_some]
      by_cases hdue : timeBeforeEq (time n.task.1) currtime = true
      · obtain ⟨mem, e, hhand, hl⟩ := h.insertTaskFromTimer hget currtime
        have hl' : Holds { s with
            mem := mem, timerQueue := n.next, taskQ := some a, taskEnd := e,
            handed := s.handed ++ [(n.task, currtime)] } l := ⟨hl.seg, hl.nodup, hl.taskQ⟩
        obtain ⟨mem', p, q, e', hrest, hkeep⟩ := ih hl' (Nat.lt_of_succ_lt_succ hfuel)
        rw [List.takeWhile_cons_of_pos (by exact hdue), List.dropWhile_cons_of_pos (by exact hdue)]
        refine ⟨mem', p, q, e', ?_, ⟨hkeep.seg, hkeep.nodup, hkeep.taskQ⟩⟩
        simp only [hdue, if_true, hhand, Option.bind_some, Option.pure_def]
        rw [hrest]
        simp
      · rw [List.takeWhile_cons_of_neg (by exact hdue), List.dropWhile_cons_of_neg (by exact hdue)]
        refine ⟨s.mem, s.timerQueue, s.taskQ, s.taskEnd, ?_, h⟩
        simp [hdue]

theorem timerQueueSignal (h : Holds s l) (currtime : ℕ) :
    ∃ mem p q e, Timer.timerQueueSignal time currtime s = some { s with
        mem := mem, timerQueue := p, taskQ := q, taskEnd := e,
        handed := s.handed ++
          (l.takeWhile fun c => timeBeforeEq (time c.2.1) currtime).map fun c => (c.2, currtime) } ∧
      Holds { s with mem := mem, timerQueue := p, taskQ := q }
        (l.dropWhile fun c => timeBeforeEq (time c.2.1) currtime) :=
  h.signalDue time (Nat.lt_succ_of_le (h.seg.length_le h.nodup))

end Holds

/-! ## Ordered queues -/

section Ordered

variable {time : α → ℕ} {l : List (α × ℕ)} {x : α × ℕ} {now : ℕ}

theorem place_perm (p : α × ℕ → Bool) (x : α × ℕ) (l : List (α × ℕ)) :
    (l.takeWhile p ++ x :: l.dropWhile p).Perm (x :: l) := by
  have h : (l.takeWhile p ++ x :: l.dropWhile p).Perm (x :: (l.takeWhile p ++ l.dropWhile p)) :=
    List.perm_middle
  rwa [List.takeWhile_append_dropWhile] at h

theorem sorted_place (h : l.Pairwise fun e e' => time e.1 ≤ time e'.1)
    (hnear : ∀ e ∈ l, Within (time e.1) (time x.1)) :
    (l.takeWhile (fun e => timeAfter (time x.1) (time e.1)) ++
      x :: l.dropWhile fun e => timeAfter (time x.1) (time e.1)).Pairwise fun e e' =>
        time e.1 ≤ time e'.1 := by
  induction l with
  | nil => exact List.pairwise_singleton _ x
  | cons y l ih =>
    obtain ⟨hy, hl⟩ := List.pairwise_cons.1 h
    obtain ⟨hnear₁, hnear⟩ := List.forall_mem_cons.1 hnear
    have hafter : timeAfter (time x.1) (time y.1) = true ↔ time y.1 < time x.1 :=
      timeBefore_iff hnear₁.1 hnear₁.2
    by_cases hlt : timeAfter (time x.1) (time y.1) = true
    · rw [List.takeWhile_cons_of_pos (by exact hlt), List.dropWhile_cons_of_pos (by exact hlt),
        List.cons_append]
      refine List.pairwise_cons.2 ⟨fun e he => ?_, ih hl hnear⟩
      rcases List.mem_cons.1 ((place_perm _ x l).mem_iff.1 he) with rfl | he
      · exact Nat.le_of_lt (hafter.1 hlt)
      · exact hy e he
    · rw [List.takeWhile_cons_of_neg (by exact hlt), List.dropWhile_cons_of_neg (by exact hlt)]
      have hle : time x.1 ≤ time y.1 := Nat.not_lt.1 fun hxy => hlt (hafter.2 hxy)
      refine List.pairwise_cons.2 ⟨fun e he => ?_, h⟩
      rcases List.mem_cons.1 he with rfl | he
      · exact hle
      · exact hle.trans (hy e he)

/-- Behind the due tasks at the head of an ordered queue there are no others. -/
theorem lt_of_mem_dropWhile (h : l.Pairwise fun e e' => time e.1 ≤ time e'.1)
    (hnear : ∀ e ∈ l, Within (time e.1) now) {e : α × ℕ}
    (he : e ∈ l.dropWhile fun e => timeBeforeEq (time e.1) now) : now < time e.1 := by
  induction l with
  | nil => exact absurd he List.not_mem_nil
  | cons y l ih =>
    obtain ⟨hy, hl⟩ := List.pairwise_cons.1 h
    obtain ⟨hnear₁, hnear⟩ := List.forall_mem_cons.1 hnear
    by_cases hdue : timeBeforeEq (time y.1) now = true
    · rw [List.dropWhile_cons_of_pos (by exact hdue)] at he
      exact ih hl hnear he
    · rw [List.dropWhile_cons_of_neg (by exact hdue)] at he
      have hlt : now < time y.1 := Nat.not_le.1 fun hle =>
        hdue ((timeBeforeEq_iff hnear₁.1 hnear₁.2).2 hle)
      rcases List.mem_cons.1 he with rfl | he
      · exact hlt
      · exact hlt.trans_le (hy e he)

end Ordered

/-! ## Steps -/

section Steps

variable (time : α → ℕ) (isFor : ι → α → Bool) {s t : Timers α ι} {l : List (ℕ × α × ℕ)}

theorem Holds.insertTimer (h : Holds s l) {a : ℕ} (hfree : s.mem.get a = none) (x : α) :
    ∃ t l', Timer.insertTimer time a x s = some t ∧ Holds t l' ∧
      t.queue = s.queue.takeWhile (fun e => timeAfter (time x) (time e.1)) ++
        (x, s.inserted.length) :: s.queue.dropWhile (fun e => timeAfter (time x) (time e.1)) ∧
      t.inserted = s.inserted ++ [x] ∧ t.handed = s.handed ∧ t.deleted = s.deleted := by
  have ha : a ∉ l.map Prod.fst := fun hin => by
    obtain ⟨c, hc, rfl⟩ := List.mem_map.1 hin
    obtain ⟨n, hn, -⟩ := h.seg.mem_get hc
    rw [hfree] at hn
    cases hn
  have hq : ∀ e ∈ s.taskQ, e ≠ a := by
    rintro e he rfl
    have hsome := (h.taskQ e he).1
    rw [hfree] at hsome
    exact Bool.false_ne_true hsome
  have hs : Holds { s with
      mem := s.mem.alloc a { task := (x, s.inserted.length), next := none, prev := none }
      inserted := s.inserted ++ [x] } l :=
    ⟨h.seg.alloc_of_not_mem ha, h.nodup, fun e he =>
      ⟨(Memory.get_alloc_ne (hq e he)).symm ▸ (h.taskQ e he).1, (h.taskQ e he).2⟩⟩
  obtain ⟨mem, p, hqueue, ht⟩ := hs.queueTimer time Memory.get_alloc_self ha fun hin => hq a hin rfl
  refine ⟨_, _, ?_, ht, ?_, rfl, rfl, rfl⟩
  · rw [Timer.insertTimer, hfree]
    exact hqueue
  · rw [ht.queue, h.queue, List.takeWhile_map, List.dropWhile_map, List.map_append]
    rfl

theorem Holds.delete (h : Holds s l)
    (id : ι) : ∃ t l', Timer.deleteTimer isFor id s = some t ∧ Holds t l' ∧
    t.queue = s.queue.filter (fun e => !isFor id e.1) ∧ t.inserted = s.inserted ∧
    t.handed = s.handed ∧
      t.deleted = s.deleted ++ (s.queue.filter fun e => isFor id e.1).map fun e => (e, id) := by
  obtain ⟨mem, p, hdel, ht⟩ := h.deleteTimer isFor id
  refine ⟨_, _, hdel, ⟨ht.seg, ht.nodup, ht.taskQ⟩, ?_, rfl, rfl, ?_⟩
  · refine Eq.trans ht.queue ?_
    rw [h.queue, List.filter_map]
    rfl
  · rw [h.queue, List.filter_map, List.map_map]
    rfl

theorem Holds.signal (h : Holds s l)
    (currtime : ℕ) : ∃ t l', Timer.timerQueueSignal time currtime s = some t ∧
    Holds t l' ∧ t.queue = s.queue.dropWhile (fun e => timeBeforeEq (time e.1) currtime) ∧
      t.inserted = s.inserted ∧ t.deleted = s.deleted ∧ t.handed = s.handed ++
        (s.queue.takeWhile fun e => timeBeforeEq (time e.1) currtime).map fun e =>
          (e, currtime) := by
  obtain ⟨mem, p, q, e, hsig, ht⟩ := h.timerQueueSignal time currtime
  refine ⟨_, _, hsig, ⟨ht.seg, ht.nodup, ht.taskQ⟩, ?_, rfl, rfl, ?_⟩
  · refine Eq.trans ht.queue ?_
    rw [h.queue, List.dropWhile_map]
    rfl
  · rw [h.queue, List.takeWhile_map, List.map_map]
    rfl

section Account

variable {β : Type} {p : β → Bool} {q h d : List β}

theorem account_deleted : (q.filter (fun e => !p e) ++ (h ++ (d ++ q.filter p))).Perm
    (q ++ (h ++ d)) := by
  have hsplit : (q.filter (fun e => !p e) ++ q.filter p).Perm q :=
    List.perm_append_comm.trans (List.filter_append_perm p q)
  rw [← List.append_assoc h d]
  refine (List.perm_append_comm.append_left _).trans ?_
  rw [← List.append_assoc]
  exact hsplit.append_right _

theorem account_handed : (q.dropWhile p ++ ((h ++ q.takeWhile p) ++ d)).Perm (q ++ (h ++ d)) := by
  have hsplit : (q.dropWhile p ++ q.takeWhile p).Perm q := by
    have hcomm : (q.dropWhile p ++ q.takeWhile p).Perm (q.takeWhile p ++ q.dropWhile p) :=
      List.perm_append_comm
    rwa [List.takeWhile_append_dropWhile] at hcomm
  refine ((List.perm_append_comm.append_right d).append_left _).trans ?_
  rw [List.append_assoc, ← List.append_assoc]
  exact hsplit.append_right _

end Account

variable {time isFor}

/-- The queue is a list in memory, and no task is lost, duplicated or early. -/
def Kept (time : α → ℕ) (isFor : ι → α → Bool) (s : Timers α ι) : Prop :=
  (∃ l, Holds s l) ∧ Conserved time isFor s

/-- Each step that is possible is taken, keeps what is said of every state, and has its effect. -/
theorem Kept.step {a : Action α ι} (h : Kept time isFor s) (hnear : Near time a s) :
    ∃ t, step time isFor a s = some t ∧ Kept time isFor t ∧ Effect time isFor a s t := by
  obtain ⟨⟨l, hl⟩, h⟩ := h
  cases a with
  | insert a x =>
    obtain ⟨t, l', ht, hl', hqueue, hinserted, hhanded, hdeleted⟩ := hl.insertTimer time hnear.1 x
    have hperm : t.queue.Perm ((x, s.inserted.length) :: s.queue) := by
      rw [hqueue]
      exact place_perm _ _ _
    refine ⟨t, ht, ⟨⟨l', hl'⟩, ⟨?_, ?_, ?_, ?_⟩⟩, hperm, hhanded, hdeleted⟩
    · rw [hqueue]
      exact sorted_place (x := (x, s.inserted.length)) h.sorted hnear.2
    · rw [hinserted, hhanded, hdeleted, List.zipIdx_append]
      refine (hperm.append_right _).trans ((h.accounted.cons _).trans ?_)
      simpa using (List.perm_append_singleton (x, s.inserted.length) s.inserted.zipIdx).symm
    · rw [hhanded]
      exact h.notEarly
    · rw [hdeleted]
      exact h.matched
  | delete id =>
    obtain ⟨t, l', ht, hl', hqueue, hinserted, hhanded, hdeleted⟩ := hl.delete isFor id
    refine ⟨t, ht, ⟨⟨l', hl'⟩, ⟨?_, ?_, ?_, ?_⟩⟩, hqueue, hhanded⟩
    · rw [hqueue]
      exact h.sorted.filter _
    · have hid : ∀ q : List (α × ℕ), (q.map fun e => (e, id)).map Prod.fst = q := fun q => by
        simp [Function.comp_def]
      rw [hqueue, hinserted, hhanded, hdeleted, List.map_append, hid]
      exact account_deleted.trans h.accounted
    · rw [hhanded]
      exact h.notEarly
    · rw [hdeleted]
      intro d hd
      rcases List.mem_append.1 hd with hd | hd
      · exact h.matched d hd
      · obtain ⟨e, he, rfl⟩ := List.mem_map.1 hd
        exact (List.mem_filter.1 he).2
  | signal currtime =>
    obtain ⟨t, l', ht, hl', hqueue, hinserted, hdeleted, hhanded⟩ := hl.signal time currtime
    refine ⟨t, ht, ⟨⟨l', hl'⟩, ⟨?_, ?_, ?_, ?_⟩⟩, ?_, hdeleted⟩
    · rw [hqueue]
      exact h.sorted.sublist (List.dropWhile_sublist _)
    · have hid : ∀ q : List (α × ℕ), (q.map fun e => (e, currtime)).map Prod.fst = q := fun q => by
        simp [Function.comp_def]
      rw [hqueue, hinserted, hhanded, hdeleted, List.map_append, hid]
      exact account_handed.trans h.accounted
    · rw [hhanded]
      intro d hd
      rcases List.mem_append.1 hd with hd | hd
      · exact h.notEarly d hd
      · obtain ⟨e, he, rfl⟩ := List.mem_map.1 hd
        have hmem := (List.takeWhile_sublist _).subset he
        have hdue :=
          List.mem_takeWhile_imp (p := fun e : α × ℕ => timeBeforeEq (time e.1) currtime) he
        exact (timeBeforeEq_iff (hnear e hmem).1 (hnear e hmem).2).1 hdue
    · rw [hdeleted]
      exact h.matched
    · rw [hqueue]
      exact fun e he => lt_of_mem_dropWhile h.sorted hnear he

theorem kept_start : Kept time isFor ({} : Timers α ι) := by
  refine ⟨⟨[], .nil _ _, .nil, fun _ he => absurd he (Option.not_mem_none _)⟩, .nil,
    .refl _, ?_, ?_⟩
  · exact fun _ he => absurd he List.not_mem_nil
  · exact fun _ he => absurd he List.not_mem_nil

theorem Kept.keep {a : Action α ι} (h : Kept time isFor s) (hnear : Near time a s)
    (ht : Timer.step time isFor a s = some t) : Kept time isFor t ∧ Effect time isFor a s t := by
  obtain ⟨t', ht', hkept⟩ := h.step hnear
  rwa [Option.some.inj (ht.symm.trans ht')]

theorem kept_run {actions : List (Action α ι)}
    (hnear : AllSteps (step time isFor) (Near time) actions {}) :
    Along (step time isFor) (Kept time isFor) actions {} :=
  along_of_step (fun _ _ _ h hn ht => (Kept.keep h hn ht).1) kept_start hnear

/-- In every run from the empty queue each step is taken and has its
effect, and every state is as it should be. -/
theorem conserved {actions : List (Action α ι)}
    (hnear : AllSteps (step time isFor) (Near time) actions {}) :
    (∃ t, exec (step time isFor) actions {} = some t) ∧
      Along (step time isFor) (Conserved time isFor) actions {} ∧
      AllSteps (step time isFor) (fun a s => ∀ t ∈ step time isFor a s, Effect time isFor a s t)
        actions {} := by
  have hkept : Along (step time isFor) (Kept time isFor) actions {} := kept_run hnear
  refine ⟨exists_exec (P := Kept time isFor) (fun a s h hn => ?_) kept_start hnear,
    hkept.mono fun _ h => h.2, ?_⟩
  · obtain ⟨t, ht, hkept, -⟩ := Kept.step h hn
    exact ⟨t, ht, hkept⟩
  · exact ((hkept.allSteps fun _ _ h => h).and hnear).mono fun a s h t ht =>
      (Kept.keep h.1 h.2 ht).2

end Steps

end MobileCloudCaching.Timer
