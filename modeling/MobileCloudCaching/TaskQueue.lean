import MobileCloudCaching.Aodv.Queue
import MobileCloudCaching.Caching.Queue
import MobileCloudCaching.Library.Linked
import MobileCloudCaching.Library.Transition
import Mathlib.Data.List.ReduceOption

/-!
# The task queue in memory (`cTask.c`, `task_queue.c`)

Both modules keep their tasks in the same way: `task_q` leads to the task that has come last,
`task_end` to the one that has come first, and the links `prev` lead from the first to the last.
The links `next` lead back, but `get_task` does not maintain them.  `α` is what a task holds.
-/

namespace MobileCloudCaching.TaskQueue

open Linked Transition

variable {α : Type}

structure Cell (α : Type) where
  task : α
  next : Option ℕ
  prev : Option ℕ
  deriving DecidableEq

structure Tasks (α : Type) where
  mem : Memory (Cell α) := {}
  /-- `task_q` -/
  taskQ : Option ℕ := none
  /-- `task_end` -/
  taskEnd : Option ℕ := none
  /-- ghost: the tasks queued so far, with their addresses -/
  arrived : List (ℕ × α) := []
  /-- ghost: what `get_task` has returned so far -/
  returned : List (Option (ℕ × α)) := []
  deriving DecidableEq

namespace Tasks

/-- The tasks that `get_task` has returned. -/
def handed (s : Tasks α) : List (ℕ × α) := s.returned.reduceOption

/-- The tasks that are queued: they have arrived more often than they have been returned. -/
def waiting (s : Tasks α) : List ℕ := (s.arrived.map Prod.fst).diff (s.handed.map Prod.fst)

end Tasks

section Code

/-- `queue_task` of `caching`; `queue_aodv_task` of `kaodv` differs in the thread it kicks. -/
def queueTask (newEntry : ℕ) (s : Tasks α) : Option (Tasks α) := do
  let mem ← s.mem.modify (some newEntry) fun n => { n with next := s.taskQ, prev := none }
  let mem ← if s.taskQ = none then some mem else mem.modify s.taskQ fun n =>
    { n with prev := some newEntry }
  return { s with
    mem := mem, taskQ := some newEntry, taskEnd :=
      if s.taskEnd = none then some newEntry else s.taskEnd }

/-- `get_task` of both modules. -/
def getTask (s : Tasks α) : Option (Option ℕ × Tasks α) :=
  match s.taskEnd with
  | none => some (none, s)
  | some tmpTask =>
    if s.taskEnd = s.taskQ then some (some tmpTask, { s with taskQ := none, taskEnd := none })
    else (s.mem.get tmpTask).map fun n => (some tmpTask, { s with taskEnd := n.prev })

/-- `create_task`, for which `kmalloc` finds the address `a`; a call of `queue_task`; a call of
`get_task`, after which the task is read; `kfree` of a task. -/
inductive Action (α : Type)
  | create (a : ℕ) (x : α)
  | queue (a : ℕ)
  | get
  | free (a : ℕ)

def step (a : Action α) (s : Tasks α) : Option (Tasks α) :=
  match a with
  | .create a x =>
    if (s.mem.get a).isSome then none
    else some { s with mem := s.mem.alloc a { task := x, next := none, prev := none } }
  | .queue a => do
    let n ← s.mem.get a
    queueTask a { s with arrived := s.arrived ++ [(a, n.task)] }
  | .get => do
    match ← getTask s with
    | (none, s) => return { s with returned := s.returned ++ [none] }
    | (some a, s) =>
      let n ← s.mem.get a
      return { s with returned := s.returned ++ [some (a, n.task)] }
  | .free a => some { s with mem := s.mem.free a }

end Code

/-- Memory is allocated where it is free; tasks that are queued or
freed are in memory, and not queued. -/
def Possible (a : Action α) (s : Tasks α) : Prop :=
  match a with
  | .create a _ => s.mem.get a = none
  | .queue a | .free a => (s.mem.get a).isSome = true ∧ a ∉ s.waiting
  | .get => True

instance [DecidableEq α] : ∀ (a : Action α) s, Decidable (Possible a s)
  | .create a _, s => inferInstanceAs (Decidable (s.mem.get a = none))
  | .queue a, s | .free a,
    s => inferInstanceAs (Decidable ((s.mem.get a).isSome = true ∧ a ∉ s.waiting))
  | .get, _ => isTrue trivial

/-- The tasks returned are the first ones that have arrived, and `get_task` is going to return
the next one, or `NULL` if there is none. -/
structure Fifo (s : Tasks α) : Prop where
  order : s.handed <+: s.arrived
  next : ∃ t, getTask s = some ((s.arrived.drop s.handed.length).head?.map Prod.fst, t)

/-! ## What is queued -/

/-- `l` lists the queued tasks, the first one first. -/
structure Holds (s : Tasks α) (l : List (ℕ × α)) : Prop where
  seg : Seg Cell.task Cell.prev (fun _ _ => True) s.mem none s.taskEnd l none
  nodup : (l.map Prod.fst).Nodup
  taskQ : s.taskQ = lastOf none l

namespace Holds

variable {s : Tasks α} {l : List (ℕ × α)} {a : ℕ} {n : Cell α}

theorem queueTask (h : Holds s l) (hget : s.mem.get a = some n) (ha : a ∉ l.map Prod.fst) :
    ∃ mem e, TaskQueue.queueTask a s = some { s with mem := mem, taskQ := some a, taskEnd := e } ∧
      Holds { s with mem := mem, taskQ := some a, taskEnd := e } (l ++ [(a, n.task)]) := by
  have hnodup : ((l ++ [(a, n.task)]).map Prod.fst).Nodup := by
    rw [nodup_middle, List.append_nil]
    exact ⟨ha, h.nodup⟩
  have hnew : ∀ {m : Memory (Cell α)} {b : Option ℕ}, m.get a =
      some { n with next := s.taskQ, prev := none } →
      Seg Cell.task Cell.prev (fun _ _ => True) m b (some a) [(a, n.task)] none := fun hm =>
    .cons' hm rfl trivial (.nil _ _)
  unfold TaskQueue.queueTask
  rw [Memory.modify_some hget]
  simp only [Option.bind_eq_bind, Option.bind_some]
  rcases List.eq_nil_or_concat' l with rfl | ⟨l₀, ⟨c, x⟩, rfl⟩
  · -- the first task
    have hq : s.taskQ = none := h.taskQ
    have he : s.taskEnd = none := h.seg.start
    rw [if_pos hq, if_pos he]
    exact ⟨_, _, rfl, hnew (Memory.get_set_self hget), hnodup, rfl⟩
  · -- the one before it leads to it
    have hq : s.taskQ = some c := by rw [h.taskQ]; simp
    obtain ⟨n', hc, -, -, hnext⟩ := h.seg.last_inv
    have hne : c ≠ a := fun hca => ha (by simp [hca])
    have he : s.taskEnd ≠ none := by
      rw [h.seg.start, firstOf_append]
      cases l₀ <;> simp
    have hc' : (s.mem.set a { n with next := s.taskQ, prev := none }).get c = some n' :=
      (Memory.get_set_ne hne).trans hc
    rw [if_neg (by simp [hq]), if_neg he, hq, Memory.modify_some (hq ▸ hc')]
    refine ⟨_, _, rfl, ?_, hnodup, by simp⟩
    have hl₀ : c ∉ l₀.map Prod.fst := by simpa using (nodup_middle.1 h.nodup).1
    have hseg := (h.seg.set_of_not_mem (n := { n with next := s.taskQ, prev := none }) ha).set_last
      (n := { n' with prev := some a }) hl₀ (by
        obtain ⟨n'', hc'', hx, -, -⟩ := h.seg.last_inv
        obtain rfl := Option.some.inj (hc.symm.trans hc'')
        exact hx) fun _ _ _ _ => trivial
    rw [hq] at hseg
    refine hseg.append (hnew ?_)
    rw [Memory.get_set_ne hne.symm, hq]
    exact Memory.get_set_self hget

theorem getTask (h : Holds s l) : ∃ q e,
    TaskQueue.getTask s = some (l.head?.map Prod.fst, { s with taskQ := q, taskEnd := e }) ∧
      Holds { s with taskQ := q, taskEnd := e } l.tail := by
  cases l with
  | nil =>
    have he : s.taskEnd = none := h.seg.start
    have hget : TaskQueue.getTask s = some (none, s) := by simp [TaskQueue.getTask, he]
    exact ⟨s.taskQ, s.taskEnd, hget, h⟩
  | cons c l =>
    obtain ⟨a, x⟩ := c
    obtain ⟨he, n, hget, -, -, hseg⟩ := h.seg.cons_inv
    obtain ⟨hnotin, hnodup⟩ := List.nodup_cons.1 h.nodup
    have hrest : Seg Cell.task Cell.prev (fun _ _ => True) s.mem none n.prev l none :=
      hseg.change_before none fun _ _ => trivial
    unfold TaskQueue.getTask
    rw [he]
    dsimp only
    rcases List.eq_nil_or_concat' l with rfl | ⟨l₀, ⟨b, y⟩, rfl⟩
    · have hq : some a = s.taskQ := h.taskQ.symm
      rw [if_pos hq]
      exact ⟨none, none, rfl, .nil _ _, List.nodup_nil, rfl⟩
    · have hq : some a ≠ s.taskQ := by
        rw [h.taskQ]
        simp only [lastOf_cons, lastOf_append, lastOf_nil, ne_eq, Option.some.injEq]
        exact fun hab => hnotin (by simp [hab])
      rw [if_neg hq, hget]
      refine ⟨s.taskQ, n.prev, rfl, hrest, hnodup, ?_⟩
      rw [h.taskQ]
      simp

theorem head_get (h : Holds s l) {c : ℕ × α} (hc : l.head? = some c) :
    ∃ n, s.mem.get c.1 = some n ∧ n.task = c.2 :=
  h.seg.mem_get (List.mem_of_mem_head? hc)

end Holds

/-! ## Runs -/

theorem append_diff_left {β : Type} [BEq β] [LawfulBEq β]
    (l₁ l₂ : List β) : (l₁ ++ l₂).diff l₁ = l₂ := by
  induction l₁ with
  | nil => rfl
  | cons x l₁ ih => rw [List.cons_append, List.diff_cons, List.erase_cons_head, ih]

/-- What has arrived has been returned or is queued. -/
structure Kept (s : Tasks α) (l : List (ℕ × α)) : Prop where
  arrived : s.arrived = s.handed ++ l
  holds : Holds s l

namespace Kept

variable {s : Tasks α} {l : List (ℕ × α)} {a : ℕ}

theorem waiting (h : Kept s l) : s.waiting = l.map Prod.fst := by
  rw [Tasks.waiting, h.arrived, List.map_append, append_diff_left]

theorem drop (h : Kept s l) : s.arrived.drop s.handed.length = l := by
  rw [h.arrived, List.drop_left]

theorem fifo (h : Kept s l) : Fifo s := by
  obtain ⟨q, e, hget, -⟩ := h.holds.getTask
  refine ⟨⟨l, h.arrived.symm⟩, { s with taskQ := q, taskEnd := e }, ?_⟩
  rw [h.drop]
  exact hget

theorem create {x : α} (h : Kept s l) (hnew : s.mem.get a = none) :
    Kept { s with mem := s.mem.alloc a { task := x, next := none, prev := none } } l := by
  have hnot : a ∉ l.map Prod.fst := fun hmem => by
    obtain ⟨c, hc, rfl⟩ := List.mem_map.1 hmem
    obtain ⟨n, hn, -⟩ := h.holds.seg.mem_get hc
    cases hn.symm.trans hnew
  exact ⟨h.arrived, h.holds.seg.alloc_of_not_mem hnot, h.holds.nodup, h.holds.taskQ⟩

theorem queue {n : Cell α} (h : Kept s l) (hn : s.mem.get a = some n) (ha : a ∉ s.waiting) :
    ∃ t, step (.queue a) s = some t ∧ Kept t (l ++ [(a, n.task)]) := by
  rw [h.waiting] at ha
  have hs : Holds { s with arrived := s.arrived ++ [(a, n.task)] } l :=
    ⟨h.holds.seg, h.holds.nodup, h.holds.taskQ⟩
  obtain ⟨mem, e, hqueue, hholds⟩ := hs.queueTask hn ha
  refine ⟨_, ?_, ?_, hholds⟩
  · rw [step, hn]
    exact hqueue
  · change s.arrived ++ _ = s.handed ++ _
    rw [h.arrived, List.append_assoc]

theorem get (h : Kept s l) :
    ∃ t, step .get s = some t ∧ t.returned = s.returned ++ [l.head?] ∧ Kept t l.tail := by
  obtain ⟨q, e, hget, hholds⟩ := h.holds.getTask
  rw [step, hget]
  cases l with
  | nil =>
    refine ⟨_, rfl, rfl, ?_, ⟨hholds.seg, hholds.nodup, hholds.taskQ⟩⟩
    change s.arrived = (s.returned ++ [none]).reduceOption ++ []
    rw [List.reduceOption_append]
    simpa [Tasks.handed, List.reduceOption] using h.arrived
  | cons c l =>
    obtain ⟨n, hn, hx⟩ := h.holds.head_get (c := c) rfl
    refine ⟨{ s with taskQ := q, taskEnd := e, returned := s.returned ++ [some c] }, ?_, rfl, ?_,
      ⟨hholds.seg, hholds.nodup, hholds.taskQ⟩⟩
    · obtain ⟨b, x⟩ := c
      obtain rfl : n.task = x := hx
      simp only [Option.bind_eq_bind, Option.bind_some, List.head?_cons, Option.map_some]
      rw [hn]
      rfl
    · change s.arrived = (s.returned ++ [some c]).reduceOption ++ l
      rw [List.reduceOption_append, h.arrived]
      simp [Tasks.handed, List.reduceOption]

theorem free (h : Kept s l) (ha : a ∉ s.waiting) : Kept { s with mem := s.mem.free a } l := by
  rw [h.waiting] at ha
  exact ⟨h.arrived, h.holds.seg.free_of_not_mem ha, h.holds.nodup, h.holds.taskQ⟩

/-- A step that the memory and the callers allow is carried out. -/
theorem step {a : Action α} (h : Kept s l) (ha : Possible a s) : ∃ t, step a s = some t ∧
    ∃ l', Kept t l' := by
  cases a with
  | create a x =>
    have hnew : s.mem.get a = none := ha
    exact ⟨_, if_neg (by simp [hnew]), l, h.create hnew⟩
  | queue a =>
    obtain ⟨n, hn⟩ := Option.isSome_iff_exists.1 ha.1
    obtain ⟨t, ht, hkept⟩ := h.queue hn ha.2
    exact ⟨t, ht, _, hkept⟩
  | get =>
    obtain ⟨t, ht, -, hkept⟩ := h.get
    exact ⟨t, ht, _, hkept⟩
  | free a => exact ⟨_, rfl, l, h.free ha.2⟩

end Kept

theorem kept_start : Kept ({} : Tasks α) [] := ⟨rfl, .nil _ _, List.nodup_nil, rfl⟩

theorem exists_kept_step (a : Action α) (s : Tasks α) (h : ∃ l, Kept s l) (ha : Possible a s) :
    ∃ t, step a s = some t ∧ ∃ l, Kept t l :=
  let ⟨_, hs⟩ := h
  hs.step ha

/-- The task queue of both modules hands the tasks out in the order
in which they have arrived, each once. -/
theorem first_in_first_out {actions : List (Action α)} (h : AllSteps step Possible actions {}) :
    (∃ s, exec step actions {} = some s) ∧ Along step Fifo actions {} := by
  have hstart : ∃ l, Kept ({} : Tasks α) l := ⟨[], kept_start⟩
  have hkept : Along step (fun s => ∃ l, Kept s l) actions ({} : Tasks α) :=
    along_of_step (fun a s t hs ha ht => by
      obtain ⟨u, hu, hkept⟩ := exists_kept_step a s hs ha
      exact Option.some.inj (hu.symm.trans ht) ▸ hkept) hstart h
  exact ⟨exists_exec exists_kept_step hstart h, hkept.mono fun s ⟨_, hs⟩ => hs.fifo⟩

/-- The queue is emptied and filled again, and a task that has been returned is queued again. -/
def refill : List (Action ℕ) :=
  [.get, .create 1 10, .create 2 20, .queue 1, .queue 2, .get, .queue 1, .get, .free 2, .get,
    .get, .create 2 30,
    .queue 2, .get]

theorem first_in_first_out_refill : AllSteps step Possible refill {} ∧
    (∃ s, exec step refill {} = some s) ∧ Along step Fifo refill {} := by
  have h : AllSteps step Possible refill {} := by decide +kernel
  exact ⟨h, first_in_first_out h⟩

example : (exec step refill {}).map Tasks.returned =
    some [none, some (1, 10), some (2, 20), some (1, 10), none, some (2, 30)] := by decide +kernel

/-! ## The queue as a list -/

namespace Tasks

/-- What the queued tasks hold. -/
def contents (s : Tasks α) : List α := (s.arrived.drop s.handed.length).map Prod.snd

end Tasks

/-- `queue` and `get` act on the list that `tasks` reads from a state. -/
structure ActsOn {σ : Type} (tasks : σ → List α) (queue : α → σ → σ)
    (get : σ → Option (α × σ)) : Prop where
  queue_tasks : ∀ x s, tasks (queue x s) = tasks s ++ [x]
  get_nil : ∀ s, tasks s = [] → get s = none
  get_cons : ∀ s x l, tasks s = x :: l → ∃ t, get s = some (x, t) ∧ tasks t = l

theorem actsOn_aodv : ActsOn Aodv.Router.taskQ Aodv.queueAodvTask Aodv.getTask where
  queue_tasks _ _ := rfl
  get_nil s h := by rw [Aodv.getTask, h]
  get_cons s x l h := ⟨{ s with taskQ := l }, by rw [Aodv.getTask, h], rfl⟩

theorem actsOn_caching : ActsOn Caching.Daemon.taskQ Caching.queueTask Caching.getTask where
  queue_tasks _ _ := rfl
  get_nil d h := by rw [Caching.getTask, h]
  get_cons d x l h := ⟨{ d with taskQ := l }, by rw [Caching.getTask, h], rfl⟩

section Follows

variable {σ : Type} {tasks : σ → List α} {queue : α → σ → σ} {get : σ → Option (α × σ)}

/-- The queue in memory takes a step, and the list takes the same one. -/
def bothStep (queue : α → σ → σ) (get : σ → Option (α × σ)) (a : Action α) (s : Tasks α × σ) :
    Option (Tasks α × σ) :=
  (step a s.1).map fun t => (t,
    match a with
    | .queue a => ((s.1.mem.get a).map Cell.task).elim s.2 fun x => queue x s.2
    | .get => (get s.2).elim s.2 Prod.snd
    | .create _ _ | .free _ => s.2)

/-- The list holds what is queued, and the next task to be returned is the same. -/
structure Follows (tasks : σ → List α) (get : σ → Option (α × σ)) (s : Tasks α × σ) : Prop where
  fifo : Fifo s.1
  tasks : tasks s.2 = s.1.contents
  get : (get s.2).map Prod.fst = s.1.contents.head?

variable (hacts : ActsOn tasks queue get)
include hacts

theorem ActsOn.get_fst (s : σ) : (get s).map Prod.fst = (tasks s).head? := by
  cases h : tasks s with
  | nil => rw [hacts.get_nil s h]; rfl
  | cons x l =>
    obtain ⟨t, ht, -⟩ := hacts.get_cons s x l h
    rw [ht]
    rfl

theorem ActsOn.get_snd (s : σ) : tasks ((get s).elim s Prod.snd) = (tasks s).tail := by
  cases h : tasks s with
  | nil => rw [hacts.get_nil s h]; exact h
  | cons x l =>
    obtain ⟨t, ht, htl⟩ := hacts.get_cons s x l h
    rw [ht]
    exact htl

theorem Kept.follow {s t : Tasks α × σ} {l : List (ℕ × α)} {a : Action α} (h : Kept s.1 l)
    (htasks : tasks s.2 = l.map Prod.snd) (ha : Possible a s.1)
    (ht : bothStep queue get a s = some t) :
    ∃ l', Kept t.1 l' ∧ tasks t.2 = l'.map Prod.snd := by
  obtain ⟨m, hm, rfl⟩ := Option.map_eq_some_iff.1 ht
  cases a with
  | create a x =>
    have hnew : s.1.mem.get a = none := ha
    obtain rfl := Option.some.inj ((if_neg (by simp [hnew])).symm.trans hm)
    exact ⟨l, h.create hnew, htasks⟩
  | queue a =>
    obtain ⟨n, hn⟩ := Option.isSome_iff_exists.1 ha.1
    obtain ⟨t, ht, hkept⟩ := h.queue hn ha.2
    obtain rfl := Option.some.inj (ht.symm.trans hm)
    refine ⟨_, hkept, ?_⟩
    simp only [hn, Option.map_some, Option.elim_some]
    rw [hacts.queue_tasks, htasks, List.map_append]
    rfl
  | get =>
    obtain ⟨t, ht, -, hkept⟩ := h.get
    obtain rfl := Option.some.inj (ht.symm.trans hm)
    refine ⟨_, hkept, ?_⟩
    rw [List.map_tail, ← htasks]
    exact hacts.get_snd s.2
  | free a =>
    obtain rfl := Option.some.inj hm
    exact ⟨l, h.free ha.2, htasks⟩

/-- The queue of either module, as a list, follows the one in memory. -/
theorem follows {actions : List (Action α)} {s : σ} (hs : tasks s = [])
    (h : AllSteps (bothStep queue get) (fun a s => Possible a s.1) actions ({}, s)) :
    Along (bothStep queue get) (Follows tasks get) actions ({}, s) := by
  have hkept : Along (bothStep queue get) (fun s => ∃ l, Kept s.1 l ∧ tasks s.2 = l.map Prod.snd)
      actions ({}, s) :=
    along_of_step (fun _ _ _ ⟨_, h, htasks⟩ ha ht => h.follow hacts htasks ha ht) ⟨[],
      kept_start, hs⟩ h
  refine hkept.mono fun s ⟨l, hl, htasks⟩ => ?_
  have hcontents : tasks s.2 = s.1.contents := by rw [htasks, Tasks.contents, hl.drop]
  exact ⟨hl.fifo, hcontents, hcontents ▸ hacts.get_fst s.2⟩

end Follows

theorem follows_aodv {actions : List (Action Aodv.Task)} {s : Aodv.Router} (hs : s.taskQ = [])
    (h : AllSteps (bothStep Aodv.queueAodvTask Aodv.getTask) (fun a s => Possible a s.1)
      actions ({}, s)) :
    Along (bothStep Aodv.queueAodvTask Aodv.getTask) (Follows Aodv.Router.taskQ Aodv.getTask)
      actions ({}, s) :=
  follows actsOn_aodv hs h

theorem follows_caching {actions : List (Action Caching.Task)} {d : Caching.Daemon}
    (hd : d.taskQ = [])
    (h : AllSteps (bothStep Caching.queueTask Caching.getTask) (fun a s => Possible a s.1)
    actions ({}, d)) :
    Along (bothStep Caching.queueTask Caching.getTask)
      (Follows Caching.Daemon.taskQ Caching.getTask) actions
      ({}, d) :=
  follows actsOn_caching hd h

end MobileCloudCaching.TaskQueue
