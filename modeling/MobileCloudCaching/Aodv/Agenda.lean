import MobileCloudCaching.Aodv.Heard
import MobileCloudCaching.Aodv.Attempts

/-!
# What a handler does to the timers and the neighbours

Each handler makes one change to the timer queue at most: a periodic task and a repetition are
inserted again, a reply deletes a repetition, a hello restarts the time-out of its sender, and a
time-out deletes itself with its neighbour.  `scheduled` states this change, and `chores_handle` and
`chores_output` say that nothing else happens to timers, tasks and neighbours.
-/

namespace MobileCloudCaching.Aodv

variable {p : Params} {mem : Mem} {clk : Clock} {s t u : Router} {τ : Task}

/-- Timers, tasks and neighbours. -/
def chores (s : Router) : List Task × List Task × List Neigh := (s.timerQueue, s.taskQ, s.neighs)

theorem chores_iff : chores t = chores s ↔
    t.timerQueue = s.timerQueue ∧ t.taskQ = s.taskQ ∧ t.neighs = s.neighs := by simp [chores]

theorem chores_of_agenda (h : agenda t = agenda s) : chores t = chores s := by
  obtain ⟨h₁, h₂, h₃, -⟩ := agenda_iff.1 h
  exact chores_iff.2 ⟨h₁, h₂, h₃⟩

/-- The timers and the neighbours after a hello. -/
def greeted (mem : Mem) (clk : Clock) (τ : Task) (m : Rrep) (s : Router) : Router :=
  match findAodvNeigh m.dstIp s with
  | some n => putNeigh (n.heard clk m) (restartTimer mem clk n.ip s)
  | none =>
    match createAodvNeigh (mem .neigh 0) m.dstIp τ.dev s with
    | some (n, s) => putNeigh (n.heard clk m) (restartTimer mem clk n.ip s)
    | none => s

/-- `resend_rreq` broadcasts a request. -/
def resends (mem : Mem) (clk : Clock) (τ : Task) (s : Router) : Bool :=
  τ.retries != 0 && mem .rreq 0 && (foundRoute clk τ.srcIp s).isSome && mem .floodId 0

/-- The timers and the neighbours after the handler of `τ`. -/
def scheduled (p : Params) (mem : Mem) (clk : Clock) (τ : Task) (s : Router) : Router :=
  match τ.type with
  | .packet (.rrep m) =>
    if m.srcIp = m.dstIp then greeted mem clk τ m s
    else if validAodvNeigh clk τ.srcIp s then deleteTimer m.dstIp .resendRreq s
    else s
  | .packet _ | .routeCleanup => s
  | .cleanup => insertTimer (mem .task 0) clk .cleanup helloInterval p.myIp s
  | .hello => if mem .rrep 0 then insertTimer (mem .task 0) clk .hello helloInterval p.myIp s else s
  | .neighbor =>
    if listed τ.srcIp s then
      deleteTimer τ.srcIp .neighbor { s with neighs := s.neighs.eraseP fun n => n.ip == τ.srcIp }
    else s
  | .resendRreq =>
    insertRreqTimer (resends mem clk τ s && mem .task 0) clk τ.srcIp τ.dstIp (τ.retries - 1) s

/-! ## Handlers -/

theorem chores_insertTimer {ok : Bool} {type : TaskType} {delay : ℕ} {ip : U32}
    (h : chores t = chores s) :
    chores (insertTimer ok clk type delay ip t) = chores (insertTimer ok clk type delay ip s) := by
  obtain ⟨h₁, h₂, h₃⟩ := chores_iff.1 h
  cases ok <;> simp [chores, insertTimer, queueTimer, h₁, h₂, h₃]

theorem chores_ipqSendIp (ip : U32) : chores (ipqSendIp ip s) = chores s := rfl

theorem chores_flush (h : flushAodvRouteTable clk s = some t) : chores t = chores s :=
  chores_of_agenda (agenda_flushRoutes h)

theorem chores_recvRreq {m : Rreq} (h : recvRreq p mem clk τ m s = some t) :
    chores t = chores s := by
  rcases agenda_recvRreq h with h | h
  · exact chores_of_agenda h
  · exact (chores_of_agenda h).trans (chores_ipqSendIp _)

theorem chores_heardHello {m : Rrep} {n : Neigh} (h : heardHello mem clk m n s = some t) :
    chores t = chores (putNeigh (n.heard clk m) (restartTimer mem clk n.ip s)) :=
  chores_of_agenda (agenda_heardHello h)

theorem chores_recvHello {m : Rrep} (h : recvHello mem clk τ m s = some t) :
    chores t = chores (greeted mem clk τ m s) := by
  unfold recvHello at h
  unfold greeted
  cases hf : findAodvNeigh m.dstIp s with
  | some n =>
    simp only [hf] at h
    exact chores_heardHello h
  | none =>
    simp only [hf] at h
    cases hc : createAodvNeigh (mem .neigh 0) m.dstIp τ.dev s with
    | some c =>
      simp only [hc] at h
      exact chores_heardHello h
    | none =>
      simp only [hc] at h
      rw [← Option.some.inj h]

/-- The count of messages has no influence on a hello. -/
theorem chores_greeted {m : Rrep} (n : U32) :
    chores (greeted mem clk τ m { s with overhead := n }) = chores (greeted mem clk τ m s) := by
  have hfind : findAodvNeigh m.dstIp { s with overhead := n } = findAodvNeigh m.dstIp s := rfl
  unfold greeted restartTimer insertTimer
  rw [hfind]
  cases findAodvNeigh m.dstIp s with
  | some n => cases mem .task 0 <;> rfl
  | none =>
    unfold createAodvNeigh
    dsimp only
    split_ifs <;> rfl

theorem chores_recvRrep {m : Rrep} (hτ : τ.type = .packet (.rrep m))
    (h : recvRrep p mem clk τ m s = some t) :
    chores t = chores (scheduled p mem clk τ s) := by
  rw [scheduled, hτ]
  dsimp only
  rcases recvRrep_cases h with ⟨he, h⟩ | ⟨hne, ⟨hv, rfl⟩ | ⟨hv, s₁, rfl, hu⟩⟩
  · rw [if_pos he, chores_recvHello h]
    exact chores_greeted _
  · rw [if_neg hne, hv, if_neg Bool.false_ne_true]
  · rw [if_neg hne, if_pos hv]
    have hforward : chores (forwardRrep p clk m s₁) = chores s₁ :=
      chores_of_agenda agenda_forwardRrep
    rw [hforward]
    rcases agenda_updateAodvRoute_or hu with h | h
    · exact chores_of_agenda h
    · exact (chores_of_agenda h).trans (chores_ipqSendIp _)

theorem chores_broadcastRreq {srcIp dstIp : U32} {n : ℕ} :
    chores (broadcastRreq mem clk srcIp dstIp n s) =
      chores (insertRreqTimer ((foundRoute clk srcIp s).isSome && mem .floodId 0 && mem .task 0) clk
        srcIp dstIp n s) := chores_of_agenda agenda_broadcastRreq

theorem chores_resendRreq : chores (resendRreq mem clk τ s) =
    chores (insertRreqTimer (resends mem clk τ s && mem .task 0) clk τ.srcIp τ.dstIp
      (τ.retries - 1) s) := by
  unfold resendRreq resends
  split
  · have h : τ.retries = 0 := by omega
    rw [h]
    rfl
  · have h : (τ.retries != 0) = true := by simpa using ‹¬τ.retries ≤ 0›
    rw [h]
    cases hmem : mem .rreq 0 with
    | false => rfl
    | true =>
      rw [if_pos rfl, chores_broadcastRreq]
      rfl

theorem chores_deleteAodvNeigh {ip : U32} (h : deleteAodvNeigh mem clk ip s = some t) :
    chores t = chores (if listed ip s then
      deleteTimer ip .neighbor { s with neighs := s.neighs.eraseP fun n => n.ip == ip }
      else s) := by
  cases hn : listed ip s with
  | false =>
    rw [if_neg Bool.false_ne_true, deleteAodvNeigh_of_not_listed hn h]
  | true =>
    rw [if_pos rfl]
    exact chores_of_agenda (agenda_deleteAodvNeigh hn h)

/-- What the handler of a task does to timers, tasks and neighbours. -/
theorem chores_handle (h : handle p mem clk τ s = some t) :
    chores t = chores (scheduled p mem clk τ s) := by
  unfold handle at h
  split at h
  · rw [scheduled, ‹τ.type = _›]
    exact chores_recvRreq h
  · exact chores_recvRrep ‹_› h
  · rw [scheduled, ‹τ.type = _›]
    exact chores_of_agenda (agenda_recvRerr h)
  · rw [scheduled, ‹τ.type = _›, ← Option.some.inj h]
  · rw [scheduled, ‹τ.type = _›, chores_flush h]
    exact chores_insertTimer rfl
  · rw [scheduled, ‹τ.type = _›]
    unfold sendHello at h
    split at h
    · obtain ⟨r, -, h⟩ := Option.bind_eq_some_iff.1 h
      rw [← Option.some.inj h]
      dsimp only
      rw [if_pos ‹_›]
      exact chores_insertTimer (chores_of_agenda (agenda_localBroadcast _ _))
    · rw [← Option.some.inj h]
      dsimp only
      rw [if_neg ‹_›]
  · rw [scheduled, ‹τ.type = _›]
    exact chores_deleteAodvNeigh h
  · rw [scheduled, ‹τ.type = _›]
    exact chores_flush h
  · rw [scheduled, ‹τ.type = _›, ← Option.some.inj h]
    exact chores_resendRreq

/-! ## The task queue -/

@[simp] theorem taskQ_insertTimer {ok : Bool} {type : TaskType} {delay : ℕ} {ip : U32} :
    (insertTimer ok clk type delay ip s).taskQ = s.taskQ := by cases ok <;> rfl

@[simp] theorem taskQ_insertRreqTimer {ok : Bool} {srcIp dstIp : U32} {n : ℕ} :
    (insertRreqTimer ok clk srcIp dstIp n s).taskQ = s.taskQ := by cases ok <;> rfl

theorem mem_insertRreqTimer_of_mem {ok : Bool} {srcIp dstIp : U32} {n : ℕ} (h : τ ∈ s.timerQueue) :
    τ ∈ (insertRreqTimer ok clk srcIp dstIp n s).timerQueue := by
  cases ok with
  | false => exact h
  | true => exact mem_orderedInsert_timer.2 (.inr h)

theorem taskQ_restartTimer {ip : U32} : (restartTimer mem clk ip s).taskQ = s.taskQ :=
  taskQ_insertTimer

theorem taskQ_greeted {m : Rrep} : (greeted mem clk τ m s).taskQ = s.taskQ := by
  unfold greeted
  split
  · exact taskQ_restartTimer
  · split
    · rename_i hc
      refine taskQ_restartTimer.trans ?_
      rw [(createAodvNeigh_some hc).2.2.2]
    · rfl

/-- No handler touches the task queue. -/
theorem taskQ_scheduled : (scheduled p mem clk τ s).taskQ = s.taskQ := by
  unfold scheduled
  split
  · split_ifs
    · exact taskQ_greeted
    · rfl
    · rfl
  · rfl
  · rfl
  · exact taskQ_insertTimer
  · split_ifs
    · exact taskQ_insertTimer
    · rfl
  · split_ifs <;> rfl
  · exact taskQ_insertRreqTimer

/-! ## Outgoing packets -/

theorem chores_output (daddr : U32) : chores (output p mem clk daddr s) =
    chores (insertRreqTimer (startsDiscovery p mem clk daddr s && mem .task 0) clk p.myIp
      daddr rreqRetries s) := by
  unfold startsDiscovery
  cases hu : unrouted p clk daddr s with
  | false => exact chores_of_agenda (agenda_output_of_routed hu)
  | true =>
    rw [output_of_unrouted hu]
    have hgen : chores (genRreq mem clk p.myIp daddr (searched clk daddr s)) =
        chores (insertRreqTimer ((findTimer daddr .resendRreq s).isNone && mem .rreq 0 &&
          mem .rreq 1 && (foundRoute clk p.myIp s).isSome && mem .floodId 0 && mem .task 0)
          clk p.myIp daddr rreqRetries s) := by
      have hfind : findTimer daddr .resendRreq (searched clk daddr s) =
          findTimer daddr .resendRreq s := rfl
      unfold genRreq
      rw [hfind]
      cases findTimer daddr .resendRreq s with
      | some τ => rfl
      | none =>
        cases mem .rreq 0 with
        | false => rfl
        | true =>
          cases mem .rreq 1 with
          | false => rfl
          | true =>
            refine (chores_broadcastRreq (s := searched clk daddr s)).trans ?_
            simp only [foundRoute_searched, Option.isNone_none, Bool.true_and]
            exact chores_of_agenda (agenda_insertRreqTimer rfl)
    exact hgen

/-! ## The tasks that exist -/

theorem timerQueueSignal_perm (clk : Clock) (s : Router) (l : List Task) :
    ((timerQueueSignal clk s).timerQueue ++ ((timerQueueSignal clk s).taskQ ++ l)).Perm
      (s.timerQueue ++ (s.taskQ ++ l)) := by
  refine List.perm_iff_count.2 fun τ => ?_
  have hsplit : s.timerQueue.count τ =
      (s.timerQueue.takeWhile fun t => timeBeforeEq t.time clk.now).count τ +
      (s.timerQueue.dropWhile fun t => timeBeforeEq t.time clk.now).count τ := by
    rw [← List.count_append, List.takeWhile_append_dropWhile]
  simp only [timerQueueSignal, List.count_append]
  omega

namespace Busy

variable {b : Busy} {running : Option Task}

/-- All tasks that exist: on the timer queue, on the task queue, and in the hands of the thread. -/
def tasks (b : Busy) : List Task := b.router.timerQueue ++ (b.router.taskQ ++ b.running.toList)

/-- What an action does to the tasks.  A packet adds one at most, the timer and the thread move
them, and a request and a handler change the timer queue. -/
theorem next_cases {a : Action} (h : next p a b = some (s, running)) :
    (∃ mem clk m, a = .packet mem clk m ∧ running = b.running ∧ s.timerQueue = b.router.timerQueue ∧
        (s.taskQ = b.router.taskQ ∨ s.taskQ = b.router.taskQ ++ [taskOfPacket clk m])) ∨
      (∃ mem clk daddr, a = .output mem clk daddr ∧ running = b.running ∧
        s = output p mem clk daddr b.router) ∨
      ((∀ mem clk daddr, a ≠ .output mem clk daddr) ∧
      (∀ mem clk, a = .run mem clk → b.running = none) ∧
        (s.timerQueue ++ (s.taskQ ++ running.toList)).Perm b.tasks) ∨
      ∃ mem clk τ, a = .run mem clk ∧ b.running = some τ ∧ running = none ∧
        handle p mem clk τ b.router = some s := by
  cases a with
  | packet mem clk m =>
    simp only [next, Aodv.step, Option.map_some, Option.some.injEq, Prod.mk.injEq] at h
    obtain ⟨hs, rfl⟩ := h
    obtain ⟨n, q, rfl, hq⟩ := packetIn_cases hs
    refine .inl ⟨mem, clk, m, rfl, rfl, rfl, hq.imp ?_ ?_⟩
    · rintro rfl
      exact List.append_nil _
    · rintro rfl
      rfl
  | output mem clk daddr =>
    simp only [next, Aodv.step, Option.map_some, Option.some.injEq, Prod.mk.injEq] at h
    exact .inr (.inl ⟨mem, clk, daddr, rfl, h.2.symm, h.1.symm⟩)
  | timer clk =>
    simp only [next, Aodv.step, Option.map_some, Option.some.injEq, Prod.mk.injEq] at h
    obtain ⟨rfl, rfl⟩ := h
    refine .inr (.inr (.inl ⟨fun _ _ _ => by simp, fun _ _ => by simp,
      timerQueueSignal_perm _ _ _⟩))
  | take =>
    refine .inr (.inr (.inl ⟨fun _ _ _ => by simp, fun _ _ => by simp, ?_⟩))
    cases hrunning : b.running with
    | some τ => simp [next, hrunning] at h
    | none =>
      cases hq : b.router.taskQ with
      | nil =>
        simp only [next, hrunning, getTask, hq, Option.some.injEq, Prod.mk.injEq] at h
        obtain ⟨rfl, rfl⟩ := h
        rw [tasks, hrunning]
      | cons τ q =>
        simp only [next, hrunning, getTask, hq, Option.some.injEq, Prod.mk.injEq] at h
        obtain ⟨rfl, rfl⟩ := h
        rw [tasks, hrunning, hq, Option.toList_none, List.append_nil]
        exact (List.perm_append_singleton τ q).append_left _
  | run mem clk =>
    cases hrunning : b.running with
    | none =>
      simp only [next, hrunning, Option.some.injEq, Prod.mk.injEq] at h
      obtain ⟨rfl, rfl⟩ := h
      refine .inr (.inr (.inl ⟨fun _ _ _ => by simp, fun _ _ _ => rfl, ?_⟩))
      rw [tasks, hrunning]
    | some τ =>
      simp only [next, hrunning] at h
      obtain ⟨t, hh, he⟩ := Option.map_eq_some_iff.1 h
      obtain ⟨rfl, rfl⟩ := Prod.mk.inj he
      exact .inr (.inr (.inr ⟨mem, clk, τ, rfl, rfl, rfl, hh⟩))

end Busy

end MobileCloudCaching.Aodv
