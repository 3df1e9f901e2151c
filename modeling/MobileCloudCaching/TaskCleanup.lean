import MobileCloudCaching.TaskQueue

/-!
# Cleaning up the task queue (`cTask.c`, `task_queue.c`)

`cleanup_task_queue` follows `next` from `task_q` on and frees what it meets.  `get_task` follows
`prev`, and leaves `next` of the task that has become the first one as it is: the walk comes to
tasks that have been handed out unless the queue was empty when the first task of it came.
`task_end` is not set to the null pointer.
-/

namespace MobileCloudCaching.TaskQueue

open Linked Transition

variable {α : Type}

/-! ## The code -/

/-- `cleanup_task_queue` of both modules, with the tasks that it has freed;
the data of a task is freed with it. -/
def cleanupTaskQueue (s : Tasks α) : Option (List (ℕ × α) × Tasks α) :=
  (freeAll Cell.task Cell.next s.mem.cells.length s.taskQ s.mem).map fun r =>
    (r.1, { s with mem := r.2, taskQ := none })

/-- The tasks freed are those that are queued, each once, and with what it holds. -/
def FreesQueued (s : Tasks α) : Prop :=
  ∃ l t, cleanupTaskQueue s = some (l, t) ∧ (l.map Prod.fst).Perm s.waiting ∧
    ∀ c ∈ l, (s.mem.get c.1).map Cell.task = some c.2

/-- `get_task` finds no task afterwards. -/
def LeavesEmpty (s : Tasks α) : Prop :=
  ∃ l t, cleanupTaskQueue s = some (l, t) ∧ getTask t = some (none, t)

def CleansUp (s : Tasks α) : Prop := FreesQueued s ∧ LeavesEmpty s

/-- What `next` of the first task leads to. -/
def Tasks.behind (s : Tasks α) : Option ℕ := (s.taskEnd.bind s.mem.get).bind Cell.next

/-! ## The links `next` -/

theorem queueTask_inv {a : ℕ} {n : Cell α} {s t : Tasks α} (h : queueTask a s = some t)
    (hget : s.mem.get a = some n) :
    t.taskQ = some a ∧ (t.mem = s.mem.set a { n with next := s.taskQ, prev := none } ∨
      (s.mem.set a { n with next := s.taskQ, prev := none }).modify s.taskQ
        (fun n => { n with prev := some a }) = some t.mem) := by
  unfold queueTask at h
  rw [Memory.modify_some hget] at h
  by_cases hq : s.taskQ = none
  · simp only [Option.bind_eq_bind, Option.bind_some, if_pos hq] at h
    cases h
    exact ⟨rfl, .inl rfl⟩
  · simp only [Option.bind_eq_bind, Option.bind_some, if_neg hq] at h
    obtain ⟨m, hm, ht⟩ := Option.bind_eq_some_iff.1 h
    cases ht
    exact ⟨rfl, .inr hm⟩

/-- `queue_task` writes the `next` of no other task. -/
theorem forward_queueTask {a : ℕ} {n : Cell α} {s t : Tasks α} (h : queueTask a s = some t)
    (hget : s.mem.get a = some n) (b : ℕ) :
    (t.mem.get b).map (fun n => (n.task, n.next)) =
      if b = a then some (n.task, s.taskQ) else (s.mem.get b).map fun n => (n.task, n.next) := by
  have hfirst : ((s.mem.set a { n with next := s.taskQ, prev := none }).get b).map
      (fun n => (n.task, n.next)) =
      if b = a then some (n.task, s.taskQ) else (s.mem.get b).map fun n => (n.task, n.next) := by
    by_cases hb : b = a
    · subst hb
      rw [if_pos rfl, Memory.get_set_self hget]
      rfl
    · rw [if_neg hb, Memory.get_set_ne hb]
  rw [← hfirst]
  rcases (queueTask_inv h hget).2 with hmem | hmem
  · rw [hmem]
  · refine Memory.map_get_modify ?_ hmem b
    exact fun _ => rfl

/-- From `task_q` on, the links `next` lead through the tasks of `l`, the last one first. -/
def Forward (s : Tasks α) (l : List (ℕ × α)) : Prop :=
  ∃ q, Seg Cell.task Cell.next (fun _ _ => True) s.mem none s.taskQ l.reverse q

variable {s : Tasks α} {l : List (ℕ × α)} {a : ℕ} {n : Cell α}

theorem Forward.queueTask {t : Tasks α} (h : Forward s l) (ht : queueTask a s = some t)
    (hget : s.mem.get a = some n) (ha : a ∉ l.map Prod.fst) : Forward t (l ++ [(a, n.task)]) := by
  obtain ⟨q, hseg⟩ := h
  have hforward := forward_queueTask ht hget
  have hnew := hforward a
  rw [if_pos rfl] at hnew
  obtain ⟨n', hn', heq⟩ := Option.map_eq_some_iff.1 hnew
  obtain ⟨htask, hnext⟩ := Prod.mk.inj heq
  refine ⟨q, ?_⟩
  rw [(queueTask_inv ht hget).1, List.reverse_append]
  apply Seg.cons' hn' htask trivial
  rw [hnext]
  refine (hseg.change_before (some a) fun _ _ => trivial).congr_forward fun c hc => ?_
  have hca : c.1 ≠ a := fun he => ha (he ▸ List.mem_map_of_mem (List.mem_reverse.1 hc))
  exact (hforward c.1).trans (if_neg hca)

/-- `get_task` writes to no task. -/
theorem mem_getTask {t : Tasks α} {p : Option ℕ} (h : getTask s = some (p, t)) : t.mem = s.mem := by
  unfold getTask at h
  split at h
  · cases h
    rfl
  · split at h
    · cases h
      rfl
    · obtain ⟨n, -, hn⟩ := Option.map_eq_some_iff.1 h
      cases hn
      rfl

theorem mem_step_get {t : Tasks α} (h : step .get s = some t) : t.mem = s.mem := by
  unfold step at h
  obtain ⟨⟨p, u⟩, hget, hu⟩ := Option.bind_eq_some_iff.1 h
  cases p with
  | none =>
    cases hu
    show u.mem = s.mem
    exact mem_getTask hget
  | some a =>
    obtain ⟨n, -, hn⟩ := Option.bind_eq_some_iff.1 hu
    cases hn
    show u.mem = s.mem
    exact mem_getTask hget

/-- What is left when the first task has been handed out. -/
theorem Forward.get {t : Tasks α} (h : Forward s l) (hs : Holds s l) (ht : Holds t l.tail)
    (hmem : t.mem = s.mem) :
    Forward t l.tail := by
  have htaskQ := ht.taskQ
  cases l with
  | nil => exact ⟨_, by rw [htaskQ]; exact .nil _ _⟩
  | cons c l =>
    rw [List.tail_cons] at htaskQ ⊢
    rcases List.eq_nil_or_concat' l with rfl | ⟨l₀, d, rfl⟩
    · exact ⟨_, by rw [htaskQ]; exact .nil _ _⟩
    · have hsame : t.taskQ = s.taskQ := by
        rw [htaskQ, hs.taskQ]
        simp
      obtain ⟨q, hseg⟩ := h
      rw [List.reverse_cons] at hseg
      obtain ⟨q', hrest, -⟩ := hseg.split
      refine ⟨q', ?_⟩
      rw [hmem, hsame]
      exact hrest

/-- Where the walk goes behind the queued tasks. -/
theorem Forward.seg (h : Forward s l) (hholds : Holds s l) :
    Seg Cell.task Cell.next (fun _ _ => True) s.mem none s.taskQ l.reverse s.behind := by
  obtain ⟨q, hseg⟩ := h
  have hend : s.taskEnd = firstOf l none := hholds.seg.start
  cases l with
  | nil =>
    have hq : s.taskQ = none := hholds.taskQ
    rw [Tasks.behind, hend, hq]
    exact .nil _ _
  | cons c l =>
    obtain ⟨a, x⟩ := c
    rw [List.reverse_cons] at hseg ⊢
    obtain ⟨n, hget, -, -, hnext⟩ := hseg.last_inv
    rw [Tasks.behind, hend, firstOf_cons, Option.bind_some, hget, Option.bind_some, hnext]
    exact hseg

/-! ## Runs -/

theorem forward_step {t : Tasks α} {b : Action α} (h : Kept s l) (hforward : Forward s l)
    (hb : Possible b s) (ht : step b s = some t) : ∃ l', Kept t l' ∧ Forward t l' := by
  have hwaiting := h.waiting
  cases b with
  | create a x =>
    have hnew : s.mem.get a = none := hb
    obtain rfl := Option.some.inj ((if_neg (by simp [hnew])).symm.trans ht)
    obtain ⟨q, hseg⟩ := hforward
    refine ⟨l, h.create hnew, q, hseg.alloc_of_not_mem fun hmem => ?_⟩
    obtain ⟨c, hc, rfl⟩ := List.mem_map.1 hmem
    obtain ⟨n, hn, -⟩ := hseg.mem_get hc
    cases hn.symm.trans hnew
  | queue a =>
    obtain ⟨n, hn⟩ := Option.isSome_iff_exists.1 hb.1
    obtain ⟨t', ht', hkept⟩ := h.queue hn hb.2
    obtain rfl := Option.some.inj (ht'.symm.trans ht)
    refine ⟨_, hkept, ?_⟩
    rw [step, hn] at ht
    have ha : a ∉ l.map Prod.fst := hwaiting ▸ hb.2
    exact Forward.queueTask (s := { s with arrived := s.arrived ++ [(a, n.task)] })
      hforward ht hn ha
  | get =>
    obtain ⟨t', ht', -, hkept⟩ := h.get
    obtain rfl := Option.some.inj (ht'.symm.trans ht)
    exact ⟨_, hkept, hforward.get h.holds hkept.holds (mem_step_get ht)⟩
  | free a =>
    obtain rfl := Option.some.inj ht
    obtain ⟨q, hseg⟩ := hforward
    refine ⟨l, h.free hb.2, q, hseg.free_of_not_mem ?_⟩
    rw [List.map_reverse, List.mem_reverse, ← hwaiting]
    exact hb.2

theorem exists_forward {actions : List (Action α)} (h : AllSteps step Possible actions {})
    (hs : exec step actions {} = some s) : ∃ l, Kept s l ∧ Forward s l := by
  have halong : Along step (fun s => ∃ l, Kept s l ∧ Forward s l) actions ({} : Tasks α) :=
    along_of_step (fun _ _ _ ⟨_, hkept, hforward⟩ hb ht => forward_step hkept hforward hb ht)
      ⟨[], kept_start, none, .nil _ _⟩ h
  rw [← List.append_nil actions] at halong
  exact halong.reached hs

/-! ## What is freed -/

/-- The walk over the queued tasks, and over what is behind them. -/
theorem cleanupTaskQueue_eq (hkept : Kept s l) (hforward : Forward s l) :
    ∃ fuel m, cleanupTaskQueue s = (freeAll Cell.task Cell.next fuel s.behind m).map fun r =>
      (l.reverse ++ r.1, { s with mem := r.2, taskQ := none }) := by
  have hseg := hforward.seg hkept.holds
  have hnodup : (l.reverse.map Prod.fst).Nodup := by
    rw [List.map_reverse, List.nodup_reverse]
    exact hkept.holds.nodup
  obtain ⟨fuel, hfuel⟩ := Nat.exists_eq_add_of_le (hseg.length_le hnodup)
  refine ⟨fuel, l.reverse.foldl (fun m c => m.free c.1) s.mem, ?_⟩
  rw [cleanupTaskQueue, hfuel, hseg.freeAll hnodup fuel, Option.map_map]
  rfl

theorem freesQueued_iff (hkept : Kept s l) (hforward : Forward s l) : FreesQueued s ↔
    s.behind = none := by
  obtain ⟨fuel, m, hclean⟩ := cleanupTaskQueue_eq hkept hforward
  have hwaiting := hkept.waiting
  constructor
  · rintro ⟨l', t, ht, hperm, -⟩
    cases hbehind : s.behind with
    | none => rfl
    | some a =>
      -- one more task is freed than is queued
      rw [hclean, hbehind] at ht
      obtain ⟨r, hr, heq⟩ := Option.map_eq_some_iff.1 ht
      cases heq
      have hlen := hperm.length_eq
      rw [hwaiting] at hlen
      simp only [List.length_map, List.length_append, List.length_reverse] at hlen
      have hpos := List.length_pos_iff.2 (ne_nil_of_freeAll hr)
      omega
  · intro hbehind
    rw [hbehind, freeAll_none] at hclean
    refine ⟨_, _, hclean, ?_, fun c hc => ?_⟩
    · rw [hwaiting, List.append_nil]
      exact (List.reverse_perm l).map Prod.fst
    · rw [List.append_nil, List.mem_reverse] at hc
      obtain ⟨n, hn, htask⟩ := hkept.holds.seg.mem_get hc
      rw [hn, Option.map_some, htask]

/-- `task_end` still leads to the first task. -/
theorem leavesEmpty_iff (hkept : Kept s l) (hforward : Forward s l) : LeavesEmpty s ↔ l = [] := by
  have hend : s.taskEnd = firstOf l none := hkept.holds.seg.start
  constructor
  · rintro ⟨l', t, ht, hget⟩
    obtain ⟨r, -, heq⟩ := Option.map_eq_some_iff.1 ht
    cases heq
    cases l with
    | nil => rfl
    | cons c l =>
      rw [getTask] at hget
      simp [hend] at hget
  · rintro rfl
    obtain ⟨fuel, m, hclean⟩ := cleanupTaskQueue_eq hkept hforward
    have hbehind : s.behind = none := by rw [Tasks.behind, hend]; rfl
    rw [hbehind, freeAll_none] at hclean
    refine ⟨_, _, hclean, ?_⟩
    rw [getTask, hend]
    rfl

/-- If a task is queued, `get_task` comes to memory that has been freed. -/
theorem getTask_cleaned {t : Tasks α} {l' : List (ℕ × α)} (hkept : Kept s l)
    (hforward : Forward s l) (hl : l ≠ []) (h : cleanupTaskQueue s = some (l', t)) :
    getTask t = none := by
  obtain ⟨fuel, m, hclean⟩ := cleanupTaskQueue_eq hkept hforward
  rw [hclean] at h
  obtain ⟨r, -, heq⟩ := Option.map_eq_some_iff.1 h
  have hend : s.taskEnd = firstOf l none := hkept.holds.seg.start
  have hfreed : ∀ c ∈ l', t.mem.get c.1 = none := by
    rw [← hclean] at h
    obtain ⟨r', hr', heq'⟩ := Option.map_eq_some_iff.1 h
    cases heq'
    exact (get_of_freeAll hr').2
  cases heq
  cases l with
  | nil => exact absurd rfl hl
  | cons c l =>
    have hc : r.2.get c.1 = none := hfreed c (by simp)
    rw [getTask]
    simp [hend, hc]

/-- The clean-up frees what is queued, and leaves nothing to
`get_task`, exactly when nothing is queued. -/
theorem cleansUp_iff {actions : List (Action α)} (h : AllSteps step Possible actions {})
    (hs : exec step actions {} = some s) : CleansUp s ↔ s.waiting = [] := by
  obtain ⟨l, hkept, hforward⟩ := exists_forward h hs
  rw [CleansUp, freesQueued_iff hkept hforward, leavesEmpty_iff hkept hforward, hkept.waiting,
    List.map_eq_nil_iff, and_iff_right_iff_imp]
  rintro rfl
  have hend : s.taskEnd = none := hkept.holds.seg.start
  rw [Tasks.behind, hend]
  rfl

theorem cleansUp_iff_refill :
    AllSteps step Possible refill {} ∧ ∃ s, exec step refill {} = some s ∧
    (CleansUp s ↔ s.waiting = []) := by
  have h : AllSteps step Possible refill {} := by decide +kernel
  have hrun : (exec step refill {}).isSome = true := by decide +kernel
  obtain ⟨s, hs⟩ := Option.isSome_iff_exists.1 hrun
  exact ⟨h, s, hs, cleansUp_iff h hs⟩

/-- Two tasks are queued, and the first one is handed out. -/
def partlyConsumed : List (Action ℕ) := [.create 1 10, .create 2 20, .queue 1, .queue 2, .get]

theorem not_cleansUp_partlyConsumed :
    AllSteps step Possible partlyConsumed {} ∧ ∃ s, exec step partlyConsumed {} = some s ∧
    ¬ CleansUp s := by
  have hempty : ((exec step partlyConsumed {}).bind cleanupTaskQueue).bind (fun r => getTask r.2) =
      none := by
    decide +kernel
  have hrun : (exec step partlyConsumed {}).isSome = true := by decide +kernel
  obtain ⟨s, hs⟩ := Option.isSome_iff_exists.1 hrun
  refine ⟨by decide +kernel, s, hs, ?_⟩
  rintro ⟨-, l, t, hclean, hget⟩
  rw [hs, Option.bind_some, hclean, Option.bind_some, hget] at hempty
  cases hempty

/-- The walk comes to the task that has been handed out. -/
example : ((exec step partlyConsumed {}).bind cleanupTaskQueue).map Prod.fst =
    some [(2, 20), (1, 10)] := by
  decide +kernel

end MobileCloudCaching.TaskQueue
