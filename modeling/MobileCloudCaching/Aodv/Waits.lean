import MobileCloudCaching.Aodv.Agenda

/-!
# How long a discovery waits

Each request is followed by a repetition, after a delay that `insert_rreq_timer` computes from the
retries that are left.  Its `2 ^ n` is an exclusive or: the first two requests wait for 1600 and
2400 milliseconds, and the last one not at all.
-/

namespace MobileCloudCaching.Aodv

open Transition

variable {p : Params} {mem : Mem} {clk : Clock} {s t : Router} {τ : Task}

/-- The broadcast of a request by `gen_rreq` or `resend_rreq`. -/
structure Attempt where
  dst : U32
  /-- the repetition that is to follow, `none` without memory for it -/
  timer : Option Task
  sent : ℕ
  /-- how long the attempt before has waited, `none` for the first one of a discovery -/
  earlier : Option ℕ

/-- The waiting interval of an attempt. -/
def Attempt.wait (x : Attempt) : Option ℕ := x.timer.map fun τ => τ.time - x.sent

/-- The destinations of the requests that a step has sent. -/
def newRequests (s t : Router) : List U32 :=
  (t.sent.drop s.sent.length).filterMap fun g =>
    match g.msg with
    | .rreq m => some m.dstIp
    | _ => none

/-- The module with the last reading of the clock. -/
structure Waiting where
  busy : Busy
  now : ℕ
  /-- ghost: the broadcasts so far -/
  attempts : List Attempt
  /-- ghost: the attempts that are over, with the clock when the thread carried out the
  repetition: another broadcast, or `ipq_drop_ip` -/
  followed : List (Attempt × ℕ)

def Action.clock : Action → Option Clock
  | .packet _ clk _ | .output _ clk _ | .timer clk | .run _ clk => some clk
  | .take => none

namespace Waiting

/-- The attempt whose repetition is carried out. -/
def before (a : Action) (s : Waiting) : Option Attempt :=
  match a with
  | .run _ _ => (s.busy.running.filter fun τ => τ.type == .resendRreq).bind fun τ =>
      s.attempts.find? fun x => x.timer == some τ
  | _ => none

/-- The module after an action, which the clock has reached at `now`. -/
def observe (a : Action) (now : ℕ) (s : Waiting) (b : Busy) : Waiting where
  busy := b
  now := now
  attempts := s.attempts ++ if Busy.discovers a s.busy then
      (newRequests s.busy.router b.router).map fun d =>
        { dst := d, timer := (b.router.timerQueue.diff s.busy.router.timerQueue).head?, sent := now,
          earlier := (before a s).bind Attempt.wait }
    else []
  followed := s.followed ++ ((before a s).map fun x => (x, now)).toList

def step (p : Params) (a : Action) (s : Waiting) : Option Waiting :=
  (Busy.step p a s.busy).map (observe a ((a.clock.map Clock.now).getD s.now) s)

/-- What `init_module` leaves. -/
def start (p : Params) (clk : Clock) : Option Waiting :=
  (Busy.start p clk).map fun b => { busy := b, now := clk.now, attempts := [], followed := [] }

/-- Each request gets `NET_TRAVERSAL_TIME` to be answered, and no attempt waits
for a shorter time than the one before. -/
def Patient (s : Waiting) : Prop := (∀ f ∈ s.followed, f.1.sent + netTraversalTime ≤ f.2) ∧
  ∀ x ∈ s.attempts, ∀ w ∈ x.earlier, ∀ w' ∈ x.wait, w ≤ w'

instance (s : Waiting) : Decidable (Patient s) := inferInstanceAs (Decidable (_ ∧ _))

end Waiting

/-- The clock does not go back. -/
def Action.Forward (a : Action) (s : Waiting) : Prop := ∀ clk ∈ a.clock, s.now ≤ clk.now

instance (a : Action) (s : Waiting) : Decidable (a.Forward s) :=
  inferInstanceAs (Decidable (∀ _ ∈ _, _))

/-- The thread does not carry out a repetition with one retry left that broadcasts its
request and gets memory for its timer. -/
def Action.SparesLast : Action → Waiting → Prop
  | .run mem clk, s => ∀ τ ∈ s.busy.running, τ.type = .resendRreq →
      (resends mem clk τ s.busy.router && mem .task 0) = true → τ.retries ≠ 1
  | _, _ => True

instance : ∀ a s, Decidable (Action.SparesLast a s)
  | .run mem clk, s => inferInstanceAs (Decidable (∀ τ ∈ s.busy.running, τ.type = .resendRreq →
      (resends mem clk τ s.busy.router && mem .task 0) = true → τ.retries ≠ 1))
  | .packet _ _ _, _ | .output _ _ _, _ | .timer _, _ | .take, _ => isTrue trivial

/-! ## What a broadcast leaves -/

theorem rreqDelay_two : rreqDelay 2 = 1600 := rfl
theorem rreqDelay_one : rreqDelay 1 = 2400 := rfl
theorem rreqDelay_zero : rreqDelay 0 = 0 := rfl

theorem count_newRequests (d : U32) : (newRequests s t).count d = requestsFor d s t := by
  rw [newRequests, requestsFor, List.count, List.countP_filterMap]
  refine List.countP_congr fun g _ => ?_
  cases g.msg <;> simp

theorem newRequests_of_sent (h : t.sent = s.sent) : newRequests s t = [] := by
  rw [newRequests, h, List.drop_length]
  rfl

/-- What has been added to a list. -/
theorem diff_perm {α : Type} [DecidableEq α] {l l' k : List α} (h : l'.Perm (l ++ k)) :
    (l'.diff l).Perm k := by
  induction l generalizing l' with
  | nil => exact h
  | cons a l ih =>
    rw [List.diff_cons]
    refine ih ((h.erase a).trans ?_)
    rw [List.cons_append, List.erase_cons_head]

/-- What can be seen of a handler that broadcasts a request, or does not. -/
theorem newRequests_cases {srcIp dst : U32} {n : ℕ} {ok : Bool}
    (h : Idle s t ∨ Requested clk srcIp dst n s t)
    (htimers : t.timerQueue = (insertRreqTimer ok clk srcIp dst n s).timerQueue) :
    (newRequests s t = [] ∧ ok = false) ∨ newRequests s t = [dst] ∧
      (t.timerQueue.diff s.timerQueue).head? = if ok then some (rreqTimerTask clk srcIp dst n)
      else none := by
  have hperm : ok = true → t.timerQueue.Perm (rreqTimerTask clk srcIp dst n :: s.timerQueue) := by
    rintro rfl
    rw [htimers]
    exact List.perm_orderedInsert _ _ _
  rcases h with ⟨hsame, -, hsent⟩ | h
  · refine .inl ⟨newRequests_of_sent hsent, Bool.eq_false_iff.2 fun hok => ?_⟩
    have hlen := (hperm hok).length_eq
    rw [hsame, List.length_cons] at hlen
    omega
  · refine .inr ⟨List.perm_singleton.1 (List.perm_iff_count.2 fun d => ?_), ?_⟩
    · rw [count_newRequests, h.requests, List.count_singleton]
      by_cases hd : d = dst
      · simp [hd]
      · simp [hd, Ne.symm hd]
    · cases ok with
      | false =>
        have hnil : t.timerQueue.diff s.timerQueue = [] :=
          List.perm_nil.1 (diff_perm (by rw [htimers]; simp [insertRreqTimer]))
        rw [hnil]
        rfl
      | true =>
        have hone :=
          List.perm_singleton.1 (diff_perm
          ((hperm rfl).trans (List.perm_append_singleton _ _).symm))
        rw [hone]
        rfl

/-! ## The invariant -/

namespace Waiting

variable {w w' : Waiting} {a : Action}

/-- The record of each attempt is right, each repetition belongs to one, and those
that have left the timer queue were due. -/
structure Inv (w : Waiting) : Prop where
  record : ∀ x ∈ w.attempts, ∀ τ ∈ x.timer, τ.time = x.sent + rreqDelay τ.retries ∧ x.sent ≤ w.now ∧
    τ.retries ≤ 2 ∧ x.earlier = if τ.retries = 2 then none else some (rreqDelay (τ.retries + 1))
  live : ∀ τ ∈ w.busy.tasks, τ.type = .resendRreq → ∃ x ∈ w.attempts, x.timer = some τ
  due : ∀ τ ∈ w.busy.router.taskQ ++ w.busy.running.toList, τ.type = .resendRreq → τ.time ≤ w.now

namespace Inv

/-- What is known of a repetition. -/
theorem repetition (h : Inv w) (hτ : τ ∈ w.busy.tasks) (htype : τ.type = .resendRreq) :
    ∃ x, (w.attempts.find? fun x => x.timer == some τ) = some x ∧ x ∈ w.attempts ∧
    x.timer = some τ ∧
      τ.time = x.sent + rreqDelay τ.retries ∧ x.sent ≤ w.now ∧ τ.retries ≤ 2 := by
  obtain ⟨x, hx, htimer⟩ := h.live τ hτ htype
  cases hf : w.attempts.find? fun x => x.timer == some τ with
  | none =>
    have hno := List.find?_eq_none.1 hf x hx
    exact absurd (by simpa using htimer) hno
  | some y =>
    have hy := List.mem_of_find?_eq_some hf
    have htimer' : y.timer = some τ := by simpa using List.find?_some hf
    obtain ⟨h₁, h₂, h₃, -⟩ := h.record y hy τ htimer'
    exact ⟨y, rfl, hy, htimer', h₁, h₂, h₃⟩

end Inv

theorem rreqDelay_le {n : ℕ} (h : n ≤ 2) : rreqDelay n ≤ 2400 := by
  rcases (show n = 0 ∨ n = 1 ∨ n = 2 by omega) with rfl | rfl | rfl <;> decide

theorem le_now (hforward : a.Forward w) : w.now ≤ (a.clock.map Clock.now).getD w.now := by
  unfold Action.Forward at hforward
  cases h : a.clock with
  | none => exact le_rfl
  | some clk => exact hforward clk h

/-- No repetition leaves the timer queue before it is due. -/
theorem Inv.due_next (h : Inv w) {s : Router} {running : Option Task} (hforward : a.Forward w)
    (hs : Busy.next p a w.busy = some (s, running)) :
    ∀ τ ∈ s.taskQ ++ running.toList, τ.type = .resendRreq →
    τ.time ≤ (a.clock.map Clock.now).getD w.now := by
  have hold : ∀ τ ∈ w.busy.router.taskQ ++ w.busy.running.toList, τ.type = .resendRreq →
      τ.time ≤ (a.clock.map Clock.now).getD w.now := fun τ hτ htype =>
        (h.due τ hτ htype).trans (le_now hforward)
  cases a with
  | packet mem clk m =>
    simp only [Busy.next, Aodv.step, Option.map_some, Option.some.injEq, Prod.mk.injEq] at hs
    obtain ⟨hs, rfl⟩ := hs
    obtain ⟨n, q, rfl, hq⟩ := packetIn_cases hs
    intro τ hτ htype
    have hno : ∀ τ ∈ q, τ.type ≠ .resendRreq := by
      rcases hq with rfl | rfl <;> simp [taskOfPacket, createTask]
    simp only [List.mem_append] at hτ
    rcases hτ with (hτ | hτ) | hτ
    · exact hold τ (List.mem_append_left _ hτ) htype
    · exact absurd htype (hno τ hτ)
    · exact hold τ (List.mem_append_right _ hτ) htype
  | output mem clk daddr =>
    simp only [Busy.next, Aodv.step, Option.map_some, Option.some.injEq, Prod.mk.injEq] at hs
    obtain ⟨rfl, rfl⟩ := hs
    have hchores : chores (Aodv.output p mem clk daddr w.busy.router) = _ := chores_output daddr
    rw [(chores_iff.1 hchores).2.1, taskQ_insertRreqTimer]
    exact hold
  | timer clk =>
    simp only [Busy.next, Aodv.step, Option.map_some, Option.some.injEq, Prod.mk.injEq] at hs
    obtain ⟨rfl, rfl⟩ := hs
    intro τ hτ htype
    simp only [timerQueueSignal, List.mem_append] at hτ
    rcases hτ with (hτ | hτ) | hτ
    · exact hold τ (List.mem_append_left _ hτ) htype
    · have hmem : τ ∈ w.busy.tasks := List.mem_append_left _ ((List.takeWhile_sublist _).subset hτ)
      obtain ⟨x, -, -, -, htime, hsent, hretries⟩ := h.repetition hmem htype
      have hdelay := rreqDelay_le hretries
      have hnow : w.now ≤ clk.now := hforward clk rfl
      have hbefore : timeBeforeEq τ.time clk.now = true := by simpa using List.mem_takeWhile_imp hτ
      show τ.time ≤ clk.now
      exact le_of_timeBeforeEq hbefore (by omega)
    · exact hold τ (List.mem_append_right _ hτ) htype
  | take =>
    cases hrunning : w.busy.running with
    | some τ => simp [Busy.next, hrunning] at hs
    | none =>
      rw [hrunning, Option.toList_none, List.append_nil] at hold
      cases hq : w.busy.router.taskQ with
      | nil =>
        simp only [Busy.next, hrunning, getTask, hq, Option.some.injEq, Prod.mk.injEq] at hs
        obtain ⟨rfl, rfl⟩ := hs
        simpa using hold
      | cons τ q =>
        simp only [Busy.next, hrunning, getTask, hq, Option.some.injEq, Prod.mk.injEq] at hs
        obtain ⟨rfl, rfl⟩ := hs
        rw [hq] at hold
        exact fun e he => hold e ((List.perm_append_singleton τ q).subset he)
  | run mem clk =>
    cases hrunning : w.busy.running with
    | none =>
      simp only [Busy.next, hrunning, Option.some.injEq, Prod.mk.injEq] at hs
      obtain ⟨rfl, rfl⟩ := hs
      rwa [hrunning] at hold
    | some τ =>
      simp only [Busy.next, hrunning] at hs
      obtain ⟨t, hh, he⟩ := Option.map_eq_some_iff.1 hs
      obtain ⟨rfl, rfl⟩ := Prod.mk.inj he
      rw [(chores_iff.1 (chores_handle hh)).2.1, taskQ_scheduled, Option.toList_none,
        List.append_nil]
      exact fun e he => hold e (List.mem_append_left _ he)

/-! ## Steps -/

/-- A step that does not run `gen_rreq` or `resend_rreq` makes no repetition. -/
theorem tasks_of_not_discovers {b : Busy} {s : Router} {running : Option Task}
    (ha : Busy.discovers a b = false) (hs : Busy.next p a b = some (s, running)) :
    ∀ τ ∈ s.timerQueue ++ (s.taskQ ++ running.toList), τ.type = .resendRreq → τ ∈ b.tasks := by
  intro τ hτ htype
  rcases Busy.next_cases hs with ⟨mem, clk, m, rfl, rfl, htimers, htasks⟩ | ⟨mem, clk,
    daddr, rfl, -, -⟩ |
    ⟨-, -, hperm⟩ | ⟨mem, clk, e, rfl, hrunning, rfl, hh⟩
  · rw [htimers] at hτ
    rcases htasks with htasks | htasks
    · rwa [htasks] at hτ
    · have hne : τ ≠ taskOfPacket clk m := fun he => by
        rw [he] at htype
        exact TaskType.noConfusion htype
      rw [htasks] at hτ
      simpa [Busy.tasks, hne] using hτ
  · exact Bool.noConfusion ha
  · exact hperm.subset hτ
  · have hother : e.type ≠ .resendRreq := fun he => by simp [Busy.discovers, hrunning, he] at ha
    obtain ⟨htasks, htimers⟩ := handle_retries_sublist hother hh
    rw [htasks, Option.toList_none, List.append_nil, List.mem_append] at hτ
    rcases hτ with hτ | hτ
    · have hmem := (htimers τ.id).subset (mem_retryTimers.2 ⟨hτ, rfl, htype⟩)
      exact List.mem_append_left _ (mem_retryTimers.1 hmem).1
    · exact List.mem_append_right _ (List.mem_append_left _ hτ)

theorem before_of_not_discovers (ha : Busy.discovers a w.busy = false) : before a w = none := by
  cases a with
  | run mem clk =>
    have hno : (w.busy.running.filter fun τ => τ.type == .resendRreq) = none := by
      rw [Busy.discovers] at ha
      cases hrunning : w.busy.running with
      | none => rfl
      | some τ =>
        rw [hrunning, Option.any_some] at ha
        simp [Option.filter, ha]
    rw [before, hno, Option.bind_none]
  | packet | output | timer | take => rfl

theorem observe_of_not_discovers (ha : Busy.discovers a w.busy = false) (now : ℕ) (b : Busy) :
    (observe a now w b).attempts = w.attempts ∧ (observe a now w b).followed = w.followed := by
  simp [observe, ha, before_of_not_discovers ha]

theorem step_some (hs : Waiting.step p a w = some w') : ∃ s running requests,
    Busy.next p a w.busy = some (s, running) ∧ w' = observe a ((a.clock.map Clock.now).getD w.now) w
      { router := s, running := running, requests := requests } := by
  obtain ⟨b, hb, rfl⟩ := Option.map_eq_some_iff.1 hs
  obtain ⟨⟨s, running⟩, hnext, rfl⟩ := Option.map_eq_some_iff.1 hb
  exact ⟨s, running, _, hnext, rfl⟩

/-- Such a step adds nothing to what has been seen. -/
theorem quiet (h : Inv w) (hforward : a.Forward w) (ha : Busy.discovers a w.busy = false)
    (hs : Waiting.step p a w = some w') : Inv w' ∧ (Patient w' ↔ Patient w) := by
  obtain ⟨s, running, requests, hnext, rfl⟩ := step_some hs
  obtain ⟨hattempts, hfollowed⟩ := observe_of_not_discovers ha ((a.clock.map Clock.now).getD w.now)
    { router := s, running := running, requests := requests }
  refine ⟨⟨fun x hx τ hτ => ?_, fun τ hτ htype => ?_, h.due_next hforward hnext⟩, by
    rw [Patient, Patient, hattempts, hfollowed]⟩
  · rw [hattempts] at hx
    obtain ⟨h₁, h₂, h₃⟩ := h.record x hx τ hτ
    exact ⟨h₁, h₂.trans (le_now hforward), h₃⟩
  · rw [hattempts]
    exact h.live τ (tasks_of_not_discovers ha hnext τ hτ htype) htype

/-- A step that runs `gen_rreq` or `resend_rreq`, and may insert a repetition with `n` retries;
`earlier` is how long the attempt before has waited. -/
structure Discovers (a : Action) (clk : Clock) (srcIp dst : U32) (n : ℕ) (ok : Bool) (w : Waiting)
    (s : Router) (running : Option Task) : Prop where
  discovers : Busy.discovers a w.busy = true
  clock : a.clock = some clk
  seen : (newRequests w.busy.router s = [] ∧ ok = false) ∨ newRequests w.busy.router s = [dst] ∧
    (s.timerQueue.diff w.busy.router.timerQueue).head? = if ok then
    some (rreqTimerTask clk srcIp dst n) else none
  timers : s.timerQueue = (insertRreqTimer ok clk srcIp dst n w.busy.router).timerQueue
  rest : ∀ τ ∈ s.taskQ ++ running.toList, τ ∈ w.busy.router.taskQ ++ w.busy.running.toList
  retries : n ≤ 2
  earlier : ok = true → (before a w).bind Attempt.wait = if n = 2 then none
  else some (rreqDelay (n + 1))

theorem wait_of_timer {x : Attempt} {srcIp dst : U32} {n : ℕ} (hsent : x.sent = clk.now)
    (htimer : x.timer = some (rreqTimerTask clk srcIp dst n)) : x.wait = some (rreqDelay n) := by
  rw [Attempt.wait, htimer, hsent]
  exact congrArg some (Nat.add_sub_cancel_left _ _)

theorem Discovers.keep {srcIp dst : U32} {n : ℕ} {ok : Bool} {s : Router} {running : Option Task}
    (hd : Discovers a clk srcIp dst n ok w s running) (h : Inv w) (hforward : a.Forward w)
    (hs : Busy.next p a w.busy = some (s, running)) (requests : U32 → ℕ) :
    Inv (observe a clk.now w { router := s, running := running, requests := requests }) ∧
      (Patient (observe a clk.now w { router := s, running := running, requests := requests }) ↔
        Patient w ∧ (∀ x ∈ before a w, x.sent + netTraversalTime ≤ clk.now) ∧
          (ok = true → n ≠ 2 → rreqDelay (n + 1) ≤ rreqDelay n)) := by
  have hnow : w.now ≤ clk.now := hforward clk hd.clock
  have hdue := h.due_next hforward hs
  rw [hd.clock] at hdue
  -- the attempt that has been added
  obtain ⟨new, hattempts, hnew, hadded⟩ : ∃ new,
      (observe a clk.now w { router := s, running := running, requests := requests }).attempts =
      w.attempts ++ new ∧
        (∀ x ∈ new, x.sent = clk.now ∧
        x.timer = (if ok then some (rreqTimerTask clk srcIp dst n) else none) ∧
          x.earlier = (before a w).bind Attempt.wait) ∧ (ok = true → new ≠ []) := by
    rcases hd.seen with ⟨hnone, rfl⟩ | ⟨hone, htimer⟩
    · exact ⟨[], by simp [observe, hd.discovers, hnone], List.forall_mem_nil _,
        fun hok => Bool.noConfusion hok⟩
    · refine ⟨[⟨dst, if ok then some (rreqTimerTask clk srcIp dst n) else none, clk.now,
        (before a w).bind Attempt.wait⟩], ?_, by simp, fun _ => List.cons_ne_nil _ _⟩
      simp [observe, hd.discovers, hone, htimer]
  refine ⟨⟨fun x hx τ hτ => ?_, fun τ hτ htype => ?_, hdue⟩, ?_⟩
  · rw [hattempts] at hx
    rcases List.mem_append.1 hx with hx | hx
    · obtain ⟨h₁, h₂, h₃⟩ := h.record x hx τ hτ
      exact ⟨h₁, h₂.trans hnow, h₃⟩
    · obtain ⟨hsent, htimer, hearlier⟩ := hnew x hx
      cases ok with
      | false => rw [htimer] at hτ; cases hτ
      | true =>
        obtain rfl : rreqTimerTask clk srcIp dst n = τ := Option.some.inj (htimer.symm.trans hτ)
        exact ⟨by rw [hsent]; rfl, hsent.le, hd.retries, hearlier.trans (hd.earlier rfl)⟩
  · rw [hattempts]
    have hmem : τ ∈ w.busy.tasks ∨ ok = true ∧ τ = rreqTimerTask clk srcIp dst n := by
      rcases List.mem_append.1 hτ with hτ | hτ
      · have hτ' : τ ∈ (insertRreqTimer ok clk srcIp dst n w.busy.router).timerQueue :=
          hd.timers ▸ hτ
        cases ok with
        | false => exact .inl (List.mem_append_left _ hτ')
        | true =>
            exact (mem_orderedInsert_timer.1 hτ').symm.imp (List.mem_append_left _) fun he =>
              ⟨rfl, he⟩
      · exact .inl (List.mem_append_right _ (hd.rest τ hτ))
    rcases hmem with hmem | ⟨rfl, rfl⟩
    · obtain ⟨x, hx, htimer⟩ := h.live τ hmem htype
      exact ⟨x, List.mem_append_left _ hx, htimer⟩
    · obtain ⟨x, hx⟩ := List.exists_mem_of_ne_nil new (hadded rfl)
      exact ⟨x, List.mem_append_right _ hx, (hnew x hx).2.1⟩
  · have hfollowed : (observe a clk.now w
      { router := s, running := running, requests := requests }).followed =
        w.followed ++ ((before a w).map fun x => (x, clk.now)).toList := rfl
    have hlast : (∀ f ∈ ((before a w).map fun x => (x, clk.now)).toList,
        f.1.sent + netTraversalTime ≤ f.2) ↔
        ∀ x ∈ before a w, x.sent + netTraversalTime ≤ clk.now := by
      cases before a w <;> simp
    have hwait : (∀ x ∈ new, ∀ e ∈ x.earlier, ∀ e' ∈ x.wait, e ≤ e') ↔
        (ok = true → n ≠ 2 → rreqDelay (n + 1) ≤ rreqDelay n) := by
      constructor
      · intro hall hok hn
        obtain ⟨x, hx⟩ := List.exists_mem_of_ne_nil new (hadded hok)
        obtain ⟨hsent, htimer, hearlier⟩ := hnew x hx
        rw [if_pos hok] at htimer
        exact hall x hx _ (hearlier.trans ((hd.earlier hok).trans (if_neg hn))) _
          (wait_of_timer hsent htimer)
      · intro hle x hx e he e' he'
        obtain ⟨hsent, htimer, hearlier⟩ := hnew x hx
        cases ok with
        | false =>
          rw [Attempt.wait, htimer] at he'
          cases he'
        | true =>
          rw [wait_of_timer hsent htimer] at he'
          rw [hearlier, hd.earlier rfl] at he
          by_cases hn : n = 2
          · rw [if_pos hn] at he
            cases he
          · rw [if_neg hn] at he
            obtain rfl := Option.some.inj he
            obtain rfl := Option.some.inj he'
            exact hle rfl hn
    rw [Patient, Patient, hattempts, hfollowed, List.forall_mem_append,
      List.forall_mem_append, hlast, hwait]
    exact ⟨fun ⟨⟨h₁, h₂⟩, h₃, h₄⟩ => ⟨⟨h₁, h₃⟩, h₂, h₄⟩,
      fun ⟨⟨h₁, h₃⟩, h₂, h₄⟩ => ⟨⟨h₁, h₂⟩, h₃, h₄⟩⟩

theorem discovers_output {daddr : U32} {running : Option Task}
    (hs : Busy.next p (.output mem clk daddr) w.busy = some (s, running)) :
    Discovers (.output mem clk daddr) clk p.myIp daddr rreqRetries
      (startsDiscovery p mem clk daddr w.busy.router && mem .task 0) w s running := by
  simp only [Busy.next, Aodv.step, Option.map_some, Option.some.injEq, Prod.mk.injEq] at hs
  obtain ⟨rfl, rfl⟩ := hs
  have hchores : chores (Aodv.output p mem clk daddr w.busy.router) = _ := chores_output daddr
  obtain ⟨htimers, htasks, -⟩ := chores_iff.1 hchores
  refine ⟨rfl, rfl, newRequests_cases
    ((requested_output p mem clk daddr w.busy.router).imp_right And.right) htimers,
    htimers, ?_, le_rfl, fun _ => rfl⟩
  rw [htasks, taskQ_insertRreqTimer]
  exact fun _ => id

theorem discovers_run (h : Inv w) (hrunning : w.busy.running = some τ)
    (htype : τ.type = .resendRreq) {running : Option Task}
    (hs : Busy.next p (.run mem clk) w.busy = some (s, running)) :
    ∃ x, before (.run mem clk) w = some x ∧ τ.time = x.sent + rreqDelay τ.retries ∧ τ.retries ≤ 2 ∧
      Discovers (.run mem clk) clk τ.srcIp τ.dstIp (τ.retries - 1)
        (resends mem clk τ w.busy.router && mem .task 0) w s running := by
  obtain ⟨x, hx, -, htimer, htime, -, hretries⟩ :=
    h.repetition (by rw [Busy.tasks, hrunning]; simp) htype
  have hbefore : before (.run mem clk) w = some x := by
    rw [before, hrunning]
    simpa [Option.filter, htype] using hx
  simp only [Busy.next, hrunning] at hs
  obtain ⟨t, hh, he⟩ := Option.map_eq_some_iff.1 hs
  obtain ⟨rfl, rfl⟩ := Prod.mk.inj he
  obtain rfl := handle_resend htype hh
  have hchores : chores (resendRreq mem clk τ w.busy.router) = _ := chores_resendRreq
  obtain ⟨htimers, htasks, -⟩ := chores_iff.1 hchores
  refine ⟨x, hbefore, htime, hretries, by simp [Busy.discovers, hrunning, htype], rfl,
    newRequests_cases ((requested_resendRreq mem clk τ w.busy.router).imp_right And.right) htimers,
    htimers, ?_,
    by omega, fun hok => ?_⟩
  · rw [htasks, taskQ_insertRreqTimer, Option.toList_none, List.append_nil]
    exact fun e he => List.mem_append_left _ he
  · have hleft : τ.retries ≠ 0 := by
      simp only [resends, Bool.and_eq_true, bne_iff_ne] at hok
      exact hok.1.1.1.1
    have hwait : x.wait = some (rreqDelay τ.retries) := by
      rw [Attempt.wait, htimer, Option.map_some, htime, Nat.add_sub_cancel_left]
    rw [hbefore, Option.bind_some, hwait, if_neg (by omega),
      Nat.sub_add_cancel (Nat.pos_of_ne_zero hleft)]

/-- In a patient run, a repetition has waited for as long as a request travels. -/
theorem Patient.repetition (hP : Patient w) (h : Inv w) (hτ : τ ∈ w.busy.tasks)
    (htype : τ.type = .resendRreq) :
    netTraversalTime ≤ rreqDelay τ.retries := by
  obtain ⟨x, -, hx, htimer, htime, -, hretries⟩ := h.repetition hτ htype
  obtain ⟨-, -, -, hearlier⟩ := h.record x hx τ htimer
  rcases (show τ.retries = 0 ∨ τ.retries = 1 ∨ τ.retries = 2 by omega) with hr | hr | hr
  · -- the last attempt does not wait at all
    have hwait : x.wait = some 0 := by
      rw [Attempt.wait, htimer, Option.map_some, htime, Nat.add_sub_cancel_left, hr]
      rfl
    rw [hr] at hearlier
    exact absurd (hP.2 x hx 2400 hearlier 0 hwait) (by decide)
  · rw [hr]
    decide
  · rw [hr]
    decide

/-- Each step of a patient run leaves it patient exactly under its condition. -/
theorem patient_step (h : Inv w) (hforward : a.Forward w) (hs : Waiting.step p a w = some w') :
    Inv w' ∧ (Patient w → (Patient w' ↔ Action.SparesLast a w)) := by
  cases ha : Busy.discovers a w.busy with
  | false =>
    obtain ⟨h', hP⟩ := quiet h hforward ha hs
    refine ⟨h', fun hp => iff_of_true (hP.2 hp) ?_⟩
    cases a with
    | run mem clk =>
      intro τ hτ htype
      rw [Busy.discovers, hτ, Option.any_some, htype] at ha
      exact Bool.noConfusion ha
    | packet | output | timer | take => trivial
  | true =>
    obtain ⟨s, running, requests, hnext, rfl⟩ := step_some hs
    cases a with
    | output mem clk daddr =>
      obtain ⟨h', hP⟩ := (discovers_output hnext).keep h hforward hnext requests
      have hfirst : ∀ x ∈ before (.output mem clk daddr) w, x.sent + netTraversalTime ≤ clk.now :=
        fun x hx => by cases hx
      exact ⟨h', fun hp => iff_of_true (hP.2 ⟨hp, hfirst, fun _ hn => absurd rfl hn⟩) trivial⟩
    | run mem clk =>
      obtain ⟨τ, hrunning, htype⟩ : ∃ τ, w.busy.running = some τ ∧ τ.type = .resendRreq := by
        rw [Busy.discovers, Option.any_eq_true] at ha
        obtain ⟨τ, hτ, htype⟩ := ha
        exact ⟨τ, hτ, eq_of_beq htype⟩
      obtain ⟨x, hx, htime, hretries, hd⟩ := discovers_run h hrunning htype hnext
      obtain ⟨h', hP⟩ := hd.keep h hforward hnext requests
      refine ⟨h', fun hp => ?_⟩
      have hmem : τ ∈ w.busy.tasks := by rw [Busy.tasks, hrunning]; simp
      have hdelay := hp.repetition h hmem htype
      have hdue : τ.time ≤ clk.now :=
        (h.due τ (by rw [hrunning]; simp) htype).trans (hforward clk rfl)
      constructor
      · intro hp' e he _ hok hone
        obtain rfl : τ = e := Option.some.inj (hrunning.symm.trans he)
        have hle := (hP.1 hp').2.2 hok (by omega)
        rw [hone] at hle
        exact absurd hle (by decide)
      · intro hspares
        refine hP.2 ⟨hp, fun x' hx' => ?_, fun hok _ => ?_⟩
        · obtain rfl : x = x' := Option.some.inj (hx.symm.trans hx')
          omega
        · have hone : τ.retries ≠ 1 := hspares τ hrunning htype hok
          have hzero : τ.retries ≠ 0 := by
            simp only [resends, Bool.and_eq_true, bne_iff_ne] at hok
            exact hok.1.1.1.1
          rw [show τ.retries - 1 = 1 by omega]
          decide
    | packet | timer | take => cases ha

theorem inv_start {w : Waiting} (h : start p clk = some w) : Inv w ∧ Patient w := by
  obtain ⟨b, hb, rfl⟩ := Option.map_eq_some_iff.1 h
  obtain ⟨s, hs, rfl⟩ := Option.map_eq_some_iff.1 hb
  obtain ⟨-, htasks, htimers⟩ := initModule_agenda hs
  have hno : ∀ τ ∈ s.timerQueue ++ (s.taskQ ++ []), τ.type ≠ .resendRreq := fun τ hτ htype => by
    rw [htasks, List.append_nil, List.append_nil] at hτ
    rcases htimers τ hτ with h | h <;> exact TaskType.noConfusion (h.symm.trans htype)
  exact ⟨⟨List.forall_mem_nil _, fun τ hτ htype => absurd htype (hno τ hτ), fun τ hτ htype =>
    absurd htype (hno τ (List.mem_append_right _ hτ))⟩, List.forall_mem_nil _,
      List.forall_mem_nil _⟩

/-! ## Runs -/

/-- A run whose clock does not go back is patient throughout
exactly if no last request is broadcast. -/
theorem patient_iff {actions : List Action} (h₀ : start p clk = some w)
    (he : exec (Waiting.step p) actions w = some w')
    (hforward : AllSteps (Waiting.step p) Action.Forward actions w) :
    Along (Waiting.step p) Patient actions w ↔
    AllSteps (Waiting.step p) Action.SparesLast actions w :=
  along_iff_allSteps_of_inv (fun _ _ _ h hf hs => (patient_step h hf hs).1)
    (fun _ _ _ h hf hp hs => (patient_step h hf hs).2 hp) (inv_start h₀).1
      (inv_start h₀).2 hforward he

/-- A packet for node 3 starts a discovery that nobody answers. -/
def unansweredRun : List Action :=
  [.output .plenty (clockAt 1) (peer 3), .timer (clockAt 1601)] ++
    (List.replicate 3 [.take, .run .plenty (clockAt 1601)]).flatten ++ [.timer (clockAt 4001)] ++
    (List.replicate 3 [.take, .run .plenty (clockAt 4001)]).flatten ++
    [.timer (clockAt 4001), .take,
      .run .plenty (clockAt 4001)]

theorem patient_iff_unansweredRun : ∃ w w', start plainNode (clockAt 0) = some w ∧
    exec (Waiting.step plainNode) unansweredRun w = some w' ∧
    (Along (Waiting.step plainNode) Patient unansweredRun w ↔
      AllSteps (Waiting.step plainNode) Action.SparesLast unansweredRun w) := by
  have hrun : (start plainNode (clockAt 0)).any
      (fun w => (exec (Waiting.step plainNode) unansweredRun w).isSome &&
      decide (AllSteps (Waiting.step plainNode) Action.Forward unansweredRun w)) = true := by
        decide +kernel
  obtain ⟨w, hw, hrun⟩ := (Option.any_eq_true _ _).1 hrun
  rw [Bool.and_eq_true, decide_eq_true_eq] at hrun
  obtain ⟨w', he⟩ := Option.isSome_iff_exists.1 hrun.1
  exact ⟨w, w', hw, he, patient_iff hw he hrun.2⟩

/-- Where no packet comes in, the last request is given up in the
millisecond in which it has been sent. -/
theorem not_patient_unansweredRun :
    ¬∀ (p : Params) (clk : Clock) (actions : List Action) (w w' : Waiting), start p clk = some w →
      exec (Waiting.step p) actions w = some w' →
      AllSteps (Waiting.step p) Action.Forward actions w →
        (∀ a ∈ actions, ∀ mem clk m, a ≠ .packet mem clk m) →
        Along (Waiting.step p) Patient actions w := by
  intro h
  have hrun : (start plainNode (clockAt 0)).any
      (fun w => decide (AllSteps (Waiting.step plainNode) Action.Forward
      unansweredRun w) && (exec (Waiting.step plainNode) unansweredRun w).any fun w' =>
        decide (¬Patient w') && w'.followed.any fun f => f.2 == f.1.sent) = true := by
          decide +kernel
  obtain ⟨w, hw, hrun⟩ := (Option.any_eq_true _ _).1 hrun
  rw [Bool.and_eq_true, decide_eq_true_eq] at hrun
  obtain ⟨w', he, hw'⟩ := (Option.any_eq_true _ _).1 hrun.2
  rw [Bool.and_eq_true, decide_eq_true_eq] at hw'
  have hnone : ∀ a ∈ unansweredRun, ∀ mem clk m, a ≠ .packet mem clk m := by simp [unansweredRun]
  exact hw'.1
    (Along.reached (by rw [List.append_nil]; exact h plainNode _ _ w w' hw he hrun.1 hnone) he)

end Waiting

end MobileCloudCaching.Aodv
