import MobileCloudCaching.Aodv.Agenda

/-!
# The periodic tasks

`TASK_HELLO` and `TASK_CLEANUP` live on by inserting themselves again at the end of their
handlers. `send_hello` does so only if it has got memory for its message: a single failure of that
allocation ends the hellos for good.
-/

namespace MobileCloudCaching.Aodv

open Transition

variable {p : Params} {mem : Mem} {clk : Clock} {s t : Router} {τ : Task} {type : TaskType}

/-- The tasks of a type in a list. -/
def countType (type : TaskType) (l : List Task) : ℕ := l.countP fun τ => τ.type == type

/-- The two tasks that are never to end. -/
def TaskType.Periodic (type : TaskType) : Prop := type = .hello ∨ type = .cleanup

namespace Busy

/-- There is one `TASK_HELLO` and one `TASK_CLEANUP`. -/
def PeriodicAlive (b : Busy) : Prop := ∀ type : TaskType, type.Periodic → countType type b.tasks = 1

end Busy

/-- The allocations of tasks succeed. -/
def Action.TasksSucceed : Action → Prop
  | .packet mem _ _ | .output mem _ _ | .run mem _ => ∀ i, mem .task i = true
  | .timer _ | .take => True

/-- A hello that the thread sends gets memory for its message. -/
def Action.HelloHasMemory : Action → Busy → Prop
  | .run mem _, b => ∀ τ ∈ b.running, τ.type = .hello → mem .rrep 0 = true
  | _, _ => True

instance : ∀ a b, Decidable (Action.HelloHasMemory a b)
  | .run mem _, b =>
      inferInstanceAs (Decidable (∀ τ ∈ b.running, τ.type = .hello → mem .rrep 0 = true))
  | .packet _ _ _, _ | .output _ _ _, _ | .timer _, _ | .take, _ => isTrue trivial

/-! ## Counting tasks -/

section Count

variable {l l' : List Task}

@[simp] theorem countType_nil : countType type [] = 0 := rfl

@[simp] theorem countType_append :
    countType type (l ++ l') = countType type l + countType type l' :=
  List.countP_append

@[simp] theorem countType_cons :
    countType type (τ :: l) = countType type l + if τ.type = type then 1 else 0 := by
  simp [countType, List.countP_cons]

theorem countType_perm (h : l.Perm l') : countType type l = countType type l' := h.countP_eq _

theorem countType_queueTimer : countType type (queueTimer τ s).timerQueue =
    countType type s.timerQueue + if τ.type = type then 1 else 0 :=
  (countType_perm (List.perm_orderedInsert _ _ _)).trans countType_cons

theorem countType_deleteTimer {ip : U32} {type' : TaskType} (h : type' ≠ type) :
    countType type (deleteTimer ip type' s).timerQueue = countType type s.timerQueue := by
  rw [countType, deleteTimer, List.countP_filter]
  refine List.countP_congr fun τ _ => ?_
  simp only [Task.isFor, Bool.and_eq_true, beq_iff_eq, Bool.not_eq_true', Bool.and_eq_false_iff]
  constructor
  · exact fun hτ => hτ.1
  · exact fun hτ => ⟨hτ, .inr (by simpa [hτ] using h.symm)⟩

theorem countType_insertTimer {type' : TaskType} {delay : ℕ} {ip : U32} :
    countType type (insertTimer true clk type' delay ip s).timerQueue =
      countType type s.timerQueue + if type' = type then 1 else 0 := countType_queueTimer

theorem countType_insertRreqTimer {ok : Bool} {srcIp dstIp : U32} {n : ℕ} (h : type.Periodic) :
    countType type (insertRreqTimer ok clk srcIp dstIp n s).timerQueue =
    countType type s.timerQueue := by
  cases ok with
  | false => rfl
  | true =>
    refine countType_queueTimer.trans ?_
    rcases h with rfl | rfl <;> rfl

theorem countType_restartTimer {ip : U32} (h : type.Periodic) :
    countType type (restartTimer mem clk ip s).timerQueue = countType type s.timerQueue := by
  have hne : TaskType.neighbor ≠ type := by rcases h with rfl | rfl <;> decide
  unfold restartTimer
  cases mem .task 0 with
  | false => exact countType_deleteTimer hne
  | true => rw [countType_insertTimer, if_neg hne, countType_deleteTimer hne, Nat.add_zero]

theorem countType_greeted {m : Rrep} (h : type.Periodic) :
    countType type (greeted mem clk τ m s).timerQueue = countType type s.timerQueue := by
  unfold greeted
  split
  · exact countType_restartTimer h
  · split
    · rename_i hc
      refine (countType_restartTimer h).trans ?_
      rw [(createAodvNeigh_some hc).2.2.2]
    · rfl

/-- A periodic task is inserted again by its own handler, a hello only with memory for its
message. -/
theorem countType_scheduled (h : type.Periodic) (hmem : mem .task 0 = true) :
    countType type (scheduled p mem clk τ s).timerQueue = countType type s.timerQueue +
      if τ.type = type ∧ (τ.type = .hello → mem .rrep 0 = true) then 1 else 0 := by
  have hne : ∀ {type' : TaskType}, τ.type = type' → type' ≠ .hello → type' ≠ .cleanup →
      τ.type ≠ type := by
    rintro type' rfl h₁ h₂ rfl
    exact h.elim h₁ h₂
  have hsame : ∀ {n : ℕ} {P : Prop} [Decidable P], ¬P → n = n + if P then 1 else 0 :=
    fun hP => by rw [if_neg hP, Nat.add_zero]
  unfold scheduled
  split <;> rename_i hτ
  · -- a reply or a hello
    have hno := hne hτ (by simp) (by simp)
    rw [← hsame fun hP => hno hP.1]
    split_ifs
    · exact countType_greeted h
    · exact countType_deleteTimer (by rcases h with rfl | rfl <;> decide)
    · rfl
  · exact hsame fun hP => hne hτ (by simp) (by simp) hP.1
  · exact hsame fun hP => hne hτ (by simp) (by simp) hP.1
  · rw [hmem, countType_insertTimer, hτ]
    simp
  · cases hrrep : mem .rrep 0 with
    | true =>
      rw [if_pos rfl, hmem, countType_insertTimer, hτ]
      simp
    | false =>
      rw [if_neg Bool.false_ne_true]
      exact hsame fun hP => Bool.noConfusion (hP.2 hτ)
  · have hno := hne hτ (by simp) (by simp)
    rw [← hsame fun hP => hno hP.1]
    split_ifs
    · exact countType_deleteTimer (by rcases h with rfl | rfl <;> decide)
    · rfl
  · rw [countType_insertRreqTimer h]
    exact hsame fun hP => hne hτ (by simp) (by simp) hP.1

end Count

/-! ## Steps -/

namespace Busy

variable {b b' : Busy}

/-- A step loses a hello that has got no memory for its message, and no other periodic task. -/
theorem countType_next {a : Action} {running : Option Task} (htype : type.Periodic)
    (hmem : a.TasksSucceed) (h : next p a b = some (s, running)) :
    countType type (s.timerQueue ++ (s.taskQ ++ running.toList)) +
      (if type = .hello ∧ ¬Action.HelloHasMemory a b then 1 else 0) = countType type b.tasks := by
  rcases next_cases h with ⟨mem, clk, m, rfl, rfl, htimers, htasks⟩ | ⟨mem, clk, daddr,
    rfl, rfl, rfl⟩ |
    ⟨-, hrun, hperm⟩ | ⟨mem, clk, τ, rfl, hrunning, rfl, hh⟩
  · have hne : (taskOfPacket clk m).type ≠ type := by
      rcases htype with rfl | rfl <;> simp [taskOfPacket, createTask]
    rcases htasks with htasks | htasks <;> simp [htimers, htasks, tasks, hne, Action.HelloHasMemory]
  · have hchores : chores (output p mem clk daddr b.router) = _ := chores_output daddr
    obtain ⟨htimers, htasks, -⟩ := chores_iff.1 hchores
    rw [htimers, htasks]
    simp [tasks, countType_insertRreqTimer htype, Action.HelloHasMemory]
  · have hok : Action.HelloHasMemory a b := by
      cases a with
      | run mem clk => simp [Action.HelloHasMemory, hrun mem clk rfl]
      | _ => trivial
    rw [countType_perm hperm, if_neg fun hP => hP.2 hok, Nat.add_zero]
  · obtain ⟨htimers, htasks, -⟩ := chores_iff.1 (chores_handle hh)
    rw [htimers, htasks, taskQ_scheduled, tasks, hrunning]
    simp only [countType_append, countType_scheduled htype (hmem 0),
      Option.toList_none, countType_nil, Option.toList_some, countType_cons]
    have hok : Action.HelloHasMemory (.run mem clk) b ↔ (τ.type = .hello → mem .rrep 0 = true) := by
      simp [Action.HelloHasMemory, hrunning]
    simp only [hok]
    by_cases he : τ.type = type
    · subst he
      by_cases hhello : τ.type = .hello
      · cases mem .rrep 0 <;> simp [hhello] <;> omega
      · simp [hhello]
        omega
    · have hlost : ¬(type = .hello ∧ ¬(τ.type = .hello → mem .rrep 0 = true)) := by
        rintro ⟨rfl, hno⟩
        exact hno fun h => absurd h he
      simp only [he, false_and, if_false, if_neg hlost]
      omega

/-- A step of the thread keeps the periodic tasks alive exactly if a hello has got memory
for its message; any other step does. -/
theorem PeriodicAlive.step {a : Action} (h : PeriodicAlive b) (hmem : a.TasksSucceed)
    (hs : Busy.step p a b = some b') : PeriodicAlive b' ↔ Action.HelloHasMemory a b := by
  obtain ⟨⟨s, running⟩, hnext, rfl⟩ := Option.map_eq_some_iff.1 hs
  constructor
  · intro hb'
    by_contra hlost
    have hcount := countType_next (.inl rfl) hmem hnext
    have hone : countType .hello (s.timerQueue ++ (s.taskQ ++ running.toList)) = 1 :=
      hb' _ (.inl rfl)
    rw [if_pos ⟨rfl, hlost⟩, h _ (.inl rfl), hone] at hcount
    exact absurd hcount (by decide)
  · intro hok type htype
    have hcount := countType_next htype hmem hnext
    rw [if_neg fun hP => hP.2 hok, Nat.add_zero] at hcount
    exact hcount.trans (h type htype)

theorem PeriodicAlive.start (h : Busy.start p clk = some b) : PeriodicAlive b := by
  obtain ⟨s, hs, rfl⟩ := Option.map_eq_some_iff.1 h
  rw [initModule_eq] at hs
  rw [← Option.some.inj hs]
  rintro type (rfl | rfl) <;> simp [tasks, countType_insertTimer] <;> rfl

/-! ## Runs -/

/-- In a run whose task allocations succeed, there is always one `TASK_HELLO` and one
`TASK_CLEANUP` exactly if each hello that the thread sends gets memory for its message. -/
theorem periodic_alive {actions : List Action} (h₀ : Busy.start p clk = some b)
    (hmem : ∀ a ∈ actions, a.TasksSucceed) (he : exec (Busy.step p) actions b = some b') :
    Along (Busy.step p) PeriodicAlive actions b ↔
      AllSteps (Busy.step p) Action.HelloHasMemory actions b :=
  along_iff_allSteps (fun a ha _ _ h hs => h.step (hmem a ha) hs) (.start h₀) he

/-- The first two tasks are carried out: the clean-up and the hello. -/
def firstRound (mem : Mem) : List Action :=
  [.timer (clockAt 1000), .take, .run mem (clockAt 1000), .take, .run mem (clockAt 1000)]

theorem firstRound_tasksSucceed (h : ∀ i, mem .task i = true) :
    ∀ a ∈ firstRound mem, a.TasksSucceed := by
  intro a ha
  simp only [firstRound, List.mem_cons, List.not_mem_nil, or_false] at ha
  rcases ha with rfl | rfl | rfl | rfl | rfl
  · trivial
  · trivial
  · exact h
  · trivial
  · exact h

theorem periodic_alive_firstRound : ∃ b b', Busy.start plainNode (clockAt 0) = some b ∧
    exec (Busy.step plainNode) (firstRound .plenty) b = some b' ∧
    (Along (Busy.step plainNode) PeriodicAlive (firstRound .plenty) b ↔
      AllSteps (Busy.step plainNode) Action.HelloHasMemory (firstRound .plenty) b) := by
  have hrun : ((Busy.start plainNode (clockAt 0)).bind
      (exec (Busy.step plainNode) (firstRound .plenty))).isSome = true := by decide +kernel
  obtain ⟨b', hb'⟩ := Option.isSome_iff_exists.1 hrun
  obtain ⟨b, hb, he⟩ := Option.bind_eq_some_iff.1 hb'
  exact ⟨b, b', hb, he, periodic_alive hb (firstRound_tasksSucceed fun _ => rfl) he⟩

/-- There is no memory for a hello. -/
def Mem.withoutRrep : Mem := fun site _ => site != .rrep

/-- There is no `TASK_HELLO` after a hello without memory. -/
theorem not_periodic_alive_firstRound :
    ¬∀ (p : Params) (clk : Clock) (actions : List Action) (b b' : Busy), Busy.start p clk = some b →
      (∀ a ∈ actions, a.TasksSucceed) → exec (Busy.step p) actions b = some b' →
        Along (Busy.step p) PeriodicAlive actions b := by
  intro h
  have hrun : ((Busy.start plainNode (clockAt 0)).bind
      (exec (Busy.step plainNode) (firstRound Mem.withoutRrep))).any
      (fun b => countType .hello b.tasks == 0) = true := by decide +kernel
  obtain ⟨b', hb', hq⟩ := (Option.any_eq_true _ _).1 hrun
  obtain ⟨b, hb, he⟩ := Option.bind_eq_some_iff.1 hb'
  have halive : PeriodicAlive b' := Along.reached
    (by rw [List.append_nil]; exact h plainNode _ _ b b' hb (firstRound_tasksSucceed fun _ =>
      rfl) he) he
  rw [halive _ (.inl rfl)] at hq
  exact absurd hq (by decide)

end Busy

end MobileCloudCaching.Aodv
