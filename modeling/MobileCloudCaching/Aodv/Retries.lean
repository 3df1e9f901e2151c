import MobileCloudCaching.Aodv.Frames

/-!
# The repetition of requests

`TASK_RESEND_RREQ` is inserted when a request is broadcast and deleted when a reply comes in.  Every
other handler keeps these tasks, and releases queued packets at most.
-/

namespace MobileCloudCaching.Aodv

variable {p : Params} {mem : Mem} {clk : Clock} {s t u : Router} {d : U32}

/-- The repetitions for `d` on the timer queue. -/
def retryTimers (d : U32) (s : Router) : List Task := s.timerQueue.filter (Task.isFor d .resendRreq)

/-- The step from `s` to `t` keeps the repetitions and queues no packet. -/
structure KeepsRetries (s t : Router) : Prop where
  timers : ∀ d, retryTimers d t = retryTimers d s
  tasks : t.taskQ = s.taskQ
  packets : t.queue.list ⊆ s.queue.list

theorem KeepsRetries.refl (s : Router) : KeepsRetries s s := ⟨fun _ => rfl, rfl, List.Subset.refl _⟩

theorem KeepsRetries.trans (h₁ : KeepsRetries s t) (h₂ : KeepsRetries t u) : KeepsRetries s u :=
  ⟨fun d => (h₂.timers d).trans (h₁.timers d), h₂.tasks.trans h₁.tasks,
    List.Subset.trans h₂.packets h₁.packets⟩

theorem keepsRetries_of_agenda (h : agenda t = agenda s) : KeepsRetries s t := by
  obtain ⟨h₁, h₂, -, h₄⟩ := agenda_iff.1 h
  exact ⟨fun d => by rw [retryTimers, h₁, retryTimers], h₂, by rw [h₄]; exact List.Subset.refl _⟩

theorem mem_retryTimers {τ : Task} :
    τ ∈ retryTimers d s ↔ τ ∈ s.timerQueue ∧ τ.id = d ∧ τ.type = .resendRreq := by
  simp [retryTimers, Task.isFor]

/-! ## Timers -/

theorem filter_orderedInsert_of_neg {α : Type*} (r : α → α → Prop) [DecidableRel r] (q : α → Bool)
    {a : α} (h : q a = false) (l : List α) : (l.orderedInsert r a).filter q = l.filter q := by
  induction l with
  | nil => simp [h]
  | cons b l ih =>
    rw [List.orderedInsert]
    split
    · rw [List.filter_cons_of_neg (by simp [h])]
    · rw [List.filter_cons, List.filter_cons, ih]

theorem keepsRetries_insertTimer {ok : Bool} {type : TaskType} (delay : ℕ) (ip : U32)
    (h : type ≠ .resendRreq) : KeepsRetries s (insertTimer ok clk type delay ip s) := by
  cases ok with
  | false => exact .refl s
  | true =>
    refine ⟨fun d => filter_orderedInsert_of_neg _ _ ?_ _, rfl, List.Subset.refl _⟩
    simp [Task.isFor, timerTask, createTask, h]

theorem keepsRetries_deleteTimer {type : TaskType} (ip : U32) (h : type ≠ .resendRreq) :
    KeepsRetries s (deleteTimer ip type s) := by
  refine ⟨fun d => ?_, rfl, List.Subset.refl _⟩
  rw [retryTimers, deleteTimer, List.filter_filter]
  refine List.filter_congr fun τ _ => ?_
  cases hτ : τ.isFor d .resendRreq with
  | false => rfl
  | true =>
    have htype : τ.type = .resendRreq := by
      simp only [Task.isFor, Bool.and_eq_true, beq_iff_eq] at hτ
      exact hτ.2
    simp [Task.isFor, htype, Ne.symm h]

theorem keepsRetries_ipqSendIp (ip : U32) : KeepsRetries s (ipqSendIp ip s) :=
  ⟨fun _ => rfl, rfl, by
    rw [ipqSendIp, PacketQueue.list_sendIp]
    exact (List.filter_sublist).subset⟩

theorem retryTimers_deleteTimer :
    retryTimers d (deleteTimer d .resendRreq s) = [] := by
  rw [retryTimers, deleteTimer, List.filter_filter, List.filter_eq_nil_iff]
  intro τ _
  cases τ.isFor d .resendRreq <;> simp

theorem retryTimers_deleteTimer_of_ne {ip : U32} (h : d ≠ ip) :
    retryTimers d (deleteTimer ip .resendRreq s) = retryTimers d s := by
  rw [retryTimers, deleteTimer, List.filter_filter]
  refine List.filter_congr fun τ _ => ?_
  cases hτ : τ.isFor d .resendRreq with
  | false => rfl
  | true =>
    have hid : τ.id = d := by
      simp only [Task.isFor, Bool.and_eq_true, beq_iff_eq] at hτ
      exact hτ.1
    simp [Task.isFor, hid, h]

/-! ## Handlers -/

theorem keepsRetries_recvHello {τ : Task} {m : Rrep} (h : recvHello mem clk τ m s = some t) :
    KeepsRetries s t := by
  rcases recvHello_cases h with ⟨-, -, rfl⟩ | ⟨n, s₁, -, hh, hs₁⟩
  · exact .refl _
  · have h₁ : KeepsRetries s s₁ := by
      rcases hs₁ with ⟨-, rfl⟩ | ⟨-, hc⟩
      · exact .refl _
      · rw [(createAodvNeigh_some hc).2.2.2]
        exact ⟨fun _ => rfl, rfl, List.Subset.refl _⟩
    have h₂ : KeepsRetries s₁ (restartTimer mem clk n.ip s₁) :=
      (keepsRetries_deleteTimer _ (by decide)).trans (keepsRetries_insertTimer _ _ (by decide))
    have h₃ : KeepsRetries (restartTimer mem clk n.ip s₁)
        (putNeigh (n.heard clk m) (restartTimer mem clk n.ip s₁)) :=
      ⟨fun _ => rfl, rfl, List.Subset.refl _⟩
    exact ((h₁.trans h₂).trans h₃).trans (keepsRetries_of_agenda (agenda_heardHello hh))

theorem keepsRetries_deleteAodvNeigh {ip : U32} (h : deleteAodvNeigh mem clk ip s = some t) :
    KeepsRetries s t := by
  cases hn : s.neighs.any fun n => n.ip == ip with
  | false => rw [deleteAodvNeigh_of_not_listed hn h]; exact .refl _
  | true =>
    have h₁ : KeepsRetries s { s with neighs := s.neighs.eraseP fun n => n.ip == ip } :=
      ⟨fun _ => rfl, rfl, List.Subset.refl _⟩
    exact (h₁.trans (keepsRetries_deleteTimer ip (by decide))).trans
      (keepsRetries_of_agenda (agenda_deleteAodvNeigh hn h))

theorem keepsRetries_sendHello (h : sendHello p mem clk s = some t) : KeepsRetries s t := by
  unfold sendHello at h
  split at h
  · obtain ⟨r, -, h⟩ := Option.bind_eq_some_iff.1 h
    rw [← Option.some.inj h]
    exact (keepsRetries_of_agenda (agenda_localBroadcast _ _)).trans
      (keepsRetries_insertTimer _ _ (by decide))
  · rw [← Option.some.inj h]
    exact .refl s

theorem keepsRetries_flush (h : flushAodvRouteTable clk s = some t) : KeepsRetries s t :=
  keepsRetries_of_agenda (agenda_flushRoutes h)

theorem keepsRetries_recvRreq {τ : Task} {m : Rreq} (h : recvRreq p mem clk τ m s = some t) :
    KeepsRetries s t := by
  rcases agenda_recvRreq h with h | h
  · exact keepsRetries_of_agenda h
  · exact (keepsRetries_ipqSendIp m.srcIp).trans (keepsRetries_of_agenda h)

/-- A task keeps the repetitions, unless it is one of them, or a reply that is no
hello and comes from a valid neighbour. -/
theorem handle_keepsRetries {τ : Task} (hτ : τ.type ≠ .resendRreq)
    (hreply : ∀ m, τ.type = .packet (.rrep m) →
      m.srcIp = m.dstIp ∨ validAodvNeigh clk τ.srcIp s = false)
    (h : handle p mem clk τ s = some t) : KeepsRetries s t := by
  unfold handle at h
  split at h
  · exact keepsRetries_recvRreq h
  · rename_i m htype
    rcases recvRrep_cases h with ⟨-, h⟩ | ⟨hne, ⟨-, rfl⟩ | ⟨hv, -⟩⟩
    · have h₁ : KeepsRetries s { s with overhead := s.overhead - 1 } :=
        ⟨fun _ => rfl, rfl, List.Subset.refl _⟩
      exact h₁.trans (keepsRetries_recvHello h)
    · exact .refl _
    · rcases hreply m htype with he | hf
      · exact absurd he hne
      · rw [hv] at hf
        exact Bool.noConfusion hf
  · exact keepsRetries_of_agenda (agenda_recvRerr h)
  · rw [← Option.some.inj h]
    exact .refl s
  · have hids : KeepsRetries s
        { s with floodIdQueue := s.floodIdQueue.filter fun e => !timeBefore e.lifetime clk.now } :=
      ⟨fun _ => rfl, rfl, List.Subset.refl _⟩
    have hne : TaskType.cleanup ≠ .resendRreq := by decide
    have h₁ : KeepsRetries s (flushFloodIdQueue p mem clk s) :=
      hids.trans (keepsRetries_insertTimer _ _ hne)
    exact h₁.trans (keepsRetries_flush h)
  · exact keepsRetries_sendHello h
  · exact keepsRetries_deleteAodvNeigh h
  · exact keepsRetries_flush h
  · exact absurd ‹_› hτ

/-- A reply from a valid neighbour stops the repetition, whatever becomes of its route. -/
theorem handle_reply {τ : Task} {m : Rrep} (hτ : τ.type = .packet (.rrep m))
    (hne : m.srcIp ≠ m.dstIp) (hv : validAodvNeigh clk τ.srcIp s = true)
    (h : handle p mem clk τ s = some t) :
    ∃ s₁, agenda t = agenda s₁ ∧ updateAodvRoute (mem .route 0) clk (m.update τ)
      (deleteTimer m.dstIp .resendRreq s) = some s₁ := by
  rw [handle, hτ] at h
  rcases recvRrep_cases h with ⟨he, -⟩ | ⟨-, ⟨hf, -⟩ | ⟨-, s₁, rfl, hu⟩⟩
  · exact absurd he hne
  · rw [hv] at hf
    exact Bool.noConfusion hf
  · exact ⟨s₁, agenda_forwardRrep, hu⟩

theorem handle_resend {τ : Task} (hτ : τ.type = .resendRreq) (h : handle p mem clk τ s = some t) :
    t = resendRreq mem clk τ s := by
  rw [handle, hτ] at h
  exact (Option.some.inj h).symm

/-! ## New repetitions -/

theorem mem_insertRreqTimer {ok : Bool} {srcIp dstIp : U32} {n : ℕ} {τ : Task}
    (h : τ ∈ (insertRreqTimer ok clk srcIp dstIp n s).timerQueue) :
    τ = rreqTimerTask clk srcIp dstIp n ∨ τ ∈ s.timerQueue := by
  cases ok with
  | false => exact .inr h
  | true => exact mem_orderedInsert_timer.1 h

theorem isFor_rreqTimerTask (srcIp dstIp : U32) (n : ℕ) :
    (rreqTimerTask clk srcIp dstIp n).isFor dstIp .resendRreq = true := by
  simp [Task.isFor, rreqTimerTask, createTask]

end MobileCloudCaching.Aodv
