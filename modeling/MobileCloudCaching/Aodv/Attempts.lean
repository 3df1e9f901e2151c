import MobileCloudCaching.Aodv.Retries
import MobileCloudCaching.Library.Budget

/-!
# One discovery for each destination

`gen_rreq` looks for a repetition on the timer queue and starts a discovery when there is none.  The
repetition may have become a task, or the thread may have taken it: to see this, the rounds of the
thread are split here into taking a task and running its handler.  Nor does `gen_rreq` hold the lock
of the timer queue while it looks and inserts: its calls are split in the same way, and overlap.
-/

namespace MobileCloudCaching.Aodv

open Transition

variable {p : Params} {mem : Mem} {clk : Clock} {s t : Router} {τ : Task} {d : U32}

/-! ## The thread in two steps -/

/-- The module with the task that the thread has taken, and the requests for each destination
that have been broadcast since it last had no repetition. -/
structure Busy where
  router : Router
  running : Option Task
  requests : U32 → ℕ

/-- What can happen, with the two halves of a round of the thread. -/
inductive Action
  | packet (mem : Mem) (clk : Clock) (a : Arrival)
  | output (mem : Mem) (clk : Clock) (daddr : U32)
  | timer (clk : Clock)
  | take
  | run (mem : Mem) (clk : Clock)

/-- The requests for `d` among the datagrams that a step has sent. -/
def requestsFor (d : U32) (s t : Router) : ℕ :=
  (t.sent.drop s.sent.length).countP fun g =>
    match g.msg with
    | .rreq m => m.dstIp == d
    | _ => false

namespace Busy

/-- The repetitions for `d`: on the timer queue, on the task queue, and in the hands of the
thread. -/
def repetitions (d : U32) (b : Busy) : List Task :=
  (b.router.timerQueue ++ (b.router.taskQ ++ b.running.toList)).filter (Task.isFor d .resendRreq)

/-- The module after an action. -/
def next (p : Params) (a : Action) (b : Busy) : Option (Router × Option Task) :=
  match a with
  | .packet mem clk a => (Aodv.step p (.packet mem clk a) b.router).map fun s => (s, b.running)
  | .output mem clk daddr =>
      (Aodv.step p (.output mem clk daddr) b.router).map fun s => (s, b.running)
  | .timer clk => (Aodv.step p (.timer clk) b.router).map fun s => (s, b.running)
  | .take =>
    match b.running, getTask b.router with
    | some _, _ => none
    | none, none => some (b.router, none)
    | none, some (τ, s) => some (s, some τ)
  | .run mem clk =>
    match b.running with
    | none => some (b.router, none)
    | some τ => (handle p mem clk τ b.router).map fun s => (s, none)

/-- The action is part of a discovery of the node: `gen_rreq` or `resend_rreq` is run. -/
def discovers (a : Action) (b : Busy) : Bool :=
  match a with
  | .output _ _ _ => true
  | .run _ _ => b.running.any fun τ => τ.type == .resendRreq
  | _ => false

def step (p : Params) (a : Action) (b : Busy) : Option Busy :=
  (next p a b).map fun (s, running) =>
    { router := s, running := running
      requests := fun d => (if repetitions d b = [] then 0 else b.requests d) +
        if discovers a b then requestsFor d b.router s else 0 }

/-- What `init_module` leaves. -/
def start (p : Params) (clk : Clock) : Option Busy :=
  (initModule p clk).map fun s => { router := s, running := none, requests := fun _ => 0 }

/-- Taking a task and running its handler at once is a round of the thread. -/
theorem exec_take_run (mem : Mem) (clk : Clock) (b : Busy) (h : b.running = none) :
    (exec (step p) [.take, .run mem clk] b).map Busy.router =
    Aodv.step p (.thread mem clk) b.router := by
  cases hq : b.router.taskQ with
  | nil => simp [exec, step, next, h, getTask, hq, Aodv.step, runTask]
  | cons τ q =>
    simp only [exec, step, next, h, getTask, hq, Aodv.step, runTask, Option.map_some,
      Option.bind_some, Option.map_map, Option.bind_fun_some]
    cases handle p mem clk τ { b.router with taskQ := q } <;> rfl

/-- At most one repetition for each destination, and no more requests than the first and its
repetitions, as long as there is one. -/
def OneDiscovery (b : Busy) : Prop :=
  ∀ d, (repetitions d b).length ≤ 1 ∧ b.requests d ≤ 1 + rreqRetries

end Busy

/-- `output_handler` broadcasts a request for `d`. -/
def startsDiscovery (p : Params) (mem : Mem) (clk : Clock) (d : U32) (s : Router) : Bool :=
  unrouted p clk d s && (findTimer d .resendRreq s).isNone && mem .rreq 0 && mem .rreq 1 &&
    (foundRoute clk p.myIp s).isSome && mem .floodId 0

/-- When a discovery is started, its repetition is neither a task nor in the hands of the thread. -/
def Action.SeesRepetition (p : Params) : Action → Busy → Prop
  | .output mem clk d, b => startsDiscovery p mem clk d b.router = true →
      ∀ τ ∈ b.router.taskQ ++ b.running.toList, τ.isFor d .resendRreq = false
  | _, _ => True

instance (p : Params) : ∀ a b, Decidable (Action.SeesRepetition p a b)
  | .output mem clk d, b =>
      inferInstanceAs (Decidable (startsDiscovery p mem clk d b.router = true →
      ∀ τ ∈ b.router.taskQ ++ b.running.toList, τ.isFor d .resendRreq = false))
  | .packet _ _ _, _ | .timer _, _ | .take, _ | .run _ _, _ => isTrue trivial

/-! ## What a broadcast does -/

theorem requestsFor_of_sent (h : t.sent = s.sent) : requestsFor d s t = 0 := by
  rw [requestsFor, h, List.drop_length]
  rfl

/-- A request for `dst` has been sent, and its repetition may have been inserted. -/
structure Requested (clk : Clock) (srcIp dst : U32) (n : ℕ) (s t : Router) : Prop where
  tasks : t.taskQ = s.taskQ
  requests : ∀ d, requestsFor d s t = if d = dst then 1 else 0
  timers : ∃ ok, t.timerQueue = (insertRreqTimer ok clk srcIp dst n s).timerQueue

/-- The step has left the timers and the tasks alone, and has sent nothing. -/
def Idle (s t : Router) : Prop := t.timerQueue = s.timerQueue ∧ t.taskQ = s.taskQ ∧ t.sent = s.sent

theorem requested_broadcastRreq (mem : Mem) (clk : Clock) (srcIp dst : U32) (n : ℕ) (s : Router) :
    Idle s (broadcastRreq mem clk srcIp dst n s) ∨
      ((foundRoute clk srcIp s).isSome && mem .floodId 0) = true ∧
        Requested clk srcIp dst n s (broadcastRreq mem clk srcIp dst n s) := by
  have hagenda : agenda (broadcastRreq mem clk srcIp dst n s) = _ := agenda_broadcastRreq
  obtain ⟨htimers, htasks, -, -⟩ := agenda_iff.1 hagenda
  have hkeep : ∀ {ok : Bool}, (insertRreqTimer ok clk srcIp dst n s).taskQ = s.taskQ :=
    fun {ok} => by
    cases ok <;> rfl
  cases hr : foundRoute clk srcIp s with
  | none =>
    rw [broadcastRreq_of_none hr]
    exact .inl ⟨rfl, rfl, rfl⟩
  | some r =>
    cases hf : mem .floodId 0 with
    | false =>
      rw [broadcastRreq_of_some hr, hf, if_neg Bool.false_ne_true]
      exact .inl ⟨rfl, rfl, rfl⟩
    | true =>
      refine .inr ⟨rfl, htasks.trans hkeep, fun d => ?_, _, htimers⟩
      have hsent : (broadcastRreq mem clk srcIp dst n s).sent = s.sent ++
          [{ dst := broadcastIp, ttl := BitVec.ofNat 8 netDiameter
             msg := .rreq (outRreq clk srcIp dst r.numbered s) }] := by
        rw [broadcastRreq_of_some hr, hf, if_pos rfl, localBroadcast, if_neg (by decide)]
        have hins : ∀ (ok : Bool) (u : Router), (insertRreqTimer ok clk srcIp dst n u).sent =
            u.sent :=
          fun ok u => by cases ok <;> rfl
        rw [hins]
        rfl
      rw [requestsFor, hsent, List.drop_left]
      by_cases hd : d = dst
      · simp [outRreq, hd]
      · simp [outRreq, hd, Ne.symm hd]

theorem requested_output (p : Params) (mem : Mem) (clk : Clock) (daddr : U32) (s : Router) :
    Idle s (output p mem clk daddr s) ∨ startsDiscovery p mem clk daddr s = true ∧
      Requested clk p.myIp daddr rreqRetries s (output p mem clk daddr s) := by
  cases hu : unrouted p clk daddr s with
  | false =>
    rcases output_of_routed mem hu with h | h | ⟨r, -, -, -, h⟩ <;> rw [h]
      <;> exact .inl ⟨rfl, rfl, rfl⟩
  | true =>
    rw [output_of_unrouted hu]
    unfold genRreq
    split
    · exact .inl ⟨rfl, rfl, rfl⟩
    · rename_i htimer
      split
      · rename_i hmem
        rcases requested_broadcastRreq mem clk p.myIp daddr rreqRetries (searched clk daddr s) with
          h | ⟨hsends, h⟩
        · exact .inl h
        · rw [foundRoute_searched] at hsends
          have hfind : findTimer daddr .resendRreq (searched clk daddr s) =
            findTimer daddr .resendRreq s := rfl
          have hnone : (findTimer daddr .resendRreq s).isNone = true := by
            simpa [hfind, Option.isSome_iff_ne_none] using htimer
          rw [Bool.and_eq_true] at hmem hsends
          obtain ⟨ok, htimers⟩ := h.timers
          refine .inr ⟨?_, h.tasks, h.requests, ok, htimers.trans (by cases ok <;> rfl)⟩
          simp [startsDiscovery, hu, hnone, hmem, hsends]
      · exact .inl ⟨rfl, rfl, rfl⟩

theorem requested_resendRreq (mem : Mem) (clk : Clock) (τ : Task) (s : Router) :
    Idle s (resendRreq mem clk τ s) ∨ τ.retries ≠ 0 ∧
      Requested clk τ.srcIp τ.dstIp (τ.retries - 1) s (resendRreq mem clk τ s) := by
  unfold resendRreq
  split
  · exact .inl ⟨rfl, rfl, rfl⟩
  · split
    · exact (requested_broadcastRreq mem clk _ _ _ s).imp_right fun h => ⟨by omega, h.2⟩
    · exact .inl ⟨rfl, rfl, rfl⟩

/-! ## The invariant -/

/-- Each destination has one repetition at most, within its budget, and a repetition is known by its
destination. -/
structure Repeats (l : List Task) (requests : U32 → ℕ) : Prop where
  kept : Budget.Kept (fun d => Task.isFor d .resendRreq) Task.retries (1 + rreqRetries) l requests
  own : ∀ τ ∈ l, τ.type = .resendRreq → τ.id = τ.dstIp

namespace Repeats

variable {l l' : List Task} {requests requests' : U32 → ℕ}

theorem subperm (h : Repeats l requests) (hsub : ∀ d,
    (l'.filter (Task.isFor d .resendRreq)).Subperm (l.filter (Task.isFor d .resendRreq))) :
    Repeats l' requests where
  kept := h.kept.subperm hsub
  own τ hτ htype := by
    have hmem := (hsub τ.id).subset (List.mem_filter.2 ⟨hτ, by simp [Task.isFor, htype]⟩)
    exact h.own τ (List.mem_filter.1 hmem).1 htype

theorem perm (h : Repeats l requests) (hl : l'.Perm l) : Repeats l' requests :=
  h.subperm fun _ => (hl.filter _).subperm

theorem mono (h : Repeats l requests) (hle : ∀ d, requests' d ≤ requests d) : Repeats l requests' :=
  ⟨h.kept.mono hle, h.own⟩

/-- A request is broadcast for a destination that has no repetition. -/
theorem request {srcIp dst : U32} {n : ℕ} {rest : List Task}
    (h : Repeats (s.timerQueue ++ rest) requests) (hr : Requested clk srcIp dst n s t)
    (hnone : (s.timerQueue ++ rest).filter (Task.isFor dst .resendRreq) = [])
    (hleft : requests dst + 1 + n ≤ 1 + rreqRetries) :
    Repeats (t.timerQueue ++ rest) fun d => requests d + requestsFor d s t := by
  have hused := h.kept.use hnone (Nat.le_trans (Nat.le_add_right _ n) hleft)
  simp only [hr.requests]
  obtain ⟨ok, ht⟩ := hr.timers
  rw [ht]
  cases ok with
  | false => exact ⟨hused, h.own⟩
  | true =>
    have hfor : ∀ d, (rreqTimerTask clk srcIp dst n).isFor d .resendRreq = true → d = dst :=
      fun d hd => by
      simp only [Task.isFor, Bool.and_eq_true, beq_iff_eq] at hd
      exact hd.1.symm
    have hadd : Repeats (rreqTimerTask clk srcIp dst n :: (s.timerQueue ++ rest))
        fun d => requests d + if d = dst then 1 else 0 := by
      refine ⟨hused.add hnone hfor (by rw [if_pos rfl]; exact hleft), fun τ hτ htype => ?_⟩
      rcases List.mem_cons.1 hτ with rfl | hτ
      · rfl
      · exact h.own τ hτ htype
    exact hadd.perm ((List.perm_orderedInsert _ _ _).append_right rest)

/-- A step that may start a discovery does so for a destination that has no repetition. -/
theorem discover (clk : Clock) (srcIp dst : U32) {rest : List Task}
    (h : Repeats (s.timerQueue ++ (s.taskQ ++ rest)) requests)
    (hstep : Idle s t ∨ Requested clk srcIp dst rreqRetries s t ∧ requests dst = 0 ∧
      (s.timerQueue ++ (s.taskQ ++ rest)).filter (Task.isFor dst .resendRreq) = []) :
    Repeats (t.timerQueue ++ (t.taskQ ++ rest)) fun d => requests d + requestsFor d s t := by
  rcases hstep with ⟨h₁, h₂, h₃⟩ | ⟨hr, hzero, hnone⟩
  · simp only [requestsFor_of_sent h₃, Nat.add_zero, h₁, h₂]
    exact h
  · rw [hr.tasks]
    exact h.request hr hnone (by rw [hzero])

end Repeats

/-! ## Steps -/

/-- The handler of another task keeps the repetitions or, for a
reply, takes them from the timer queue. -/
theorem handle_retries_sublist (hτ : τ.type ≠ .resendRreq) (h : handle p mem clk τ s = some t) :
    t.taskQ = s.taskQ ∧ ∀ d, (retryTimers d t).Sublist (retryTimers d s) := by
  by_cases hreply : ∀ m, τ.type = .packet (.rrep m) → m.srcIp = m.dstIp ∨
    validAodvNeigh clk τ.srcIp s = false
  · have hk := handle_keepsRetries hτ hreply h
    exact ⟨hk.tasks, fun d => hk.timers d ▸ List.Sublist.refl _⟩
  · simp only [not_forall, not_or, Bool.not_eq_false] at hreply
    obtain ⟨m, htype, hne, hv⟩ := hreply
    obtain ⟨s₁, hagenda, hu⟩ := handle_reply htype hne hv h
    have hk : KeepsRetries (deleteTimer m.dstIp .resendRreq s) t := by
      rcases agenda_updateAodvRoute_or hu with h₁ | h₁
      · exact keepsRetries_of_agenda (hagenda.trans h₁)
      · exact (keepsRetries_ipqSendIp _).trans (keepsRetries_of_agenda (hagenda.trans h₁))
    refine ⟨hk.tasks, fun d => ?_⟩
    rw [hk.timers d]
    exact List.filter_sublist.filter _

namespace Busy

variable {b b' : Busy}

def Inv (b : Busy) : Prop :=
  Repeats (b.router.timerQueue ++ (b.router.taskQ ++ b.running.toList)) b.requests

theorem Inv.oneDiscovery (h : Inv b) : OneDiscovery b := fun d => ⟨h.kept.one d, h.kept.bound d⟩

/-- The count starts again when there is no repetition. -/
def restarted (b : Busy) (d : U32) : ℕ := if repetitions d b = [] then 0 else b.requests d

theorem restarted_le (b : Busy) (d : U32) : restarted b d ≤ b.requests d := by
  unfold restarted
  split
  · exact Nat.zero_le _
  · exact le_rfl

/-- The thread runs the handler of the task that it has taken. -/
theorem Inv.run (h : Inv b) (hrunning : b.running = some τ)
    (hh : handle p mem clk τ b.router = some t) :
    Repeats (t.timerQueue ++ (t.taskQ ++ [])) fun d =>
      restarted b d + if τ.type == .resendRreq then requestsFor d b.router t else 0 := by
  rw [Inv, hrunning] at h
  have hbase := h.mono (restarted_le b)
  by_cases htype : τ.type = .resendRreq
  · simp only [htype, beq_self_eq_true, if_true]
    obtain rfl := handle_resend htype hh
    have hid : τ.id = τ.dstIp := h.own τ (by simp) htype
    have hfor : τ.isFor τ.dstIp .resendRreq = true := by simp [Task.isFor, hid, htype]
    -- the repetition in the hands of the thread is the only one
    have hone := h.kept.one τ.dstIp
    simp only [Option.toList_some, List.filter_append, List.filter_cons_of_pos hfor,
      List.filter_nil, List.length_append, List.length_singleton] at hone
    have hnone : (b.router.timerQueue ++ (b.router.taskQ ++ [])).filter
        (Task.isFor τ.dstIp .resendRreq) = [] := by
      rw [List.append_nil, List.filter_append, List.append_eq_nil_iff]
      exact ⟨List.length_eq_zero_iff.1 (by omega), List.length_eq_zero_iff.1 (by omega)⟩
    have hrest : Repeats (b.router.timerQueue ++ (b.router.taskQ ++ [])) (restarted b) :=
      hbase.subperm fun d =>
        (((List.nil_sublist _).append_left _).append_left _ |>.filter _).subperm
    rcases requested_resendRreq mem clk τ b.router with ⟨h₁, h₂, h₃⟩ | ⟨hretries, hr⟩
    · simp only [requestsFor_of_sent h₃, Nat.add_zero, h₁, h₂]
      exact hrest
    · have hleft := hbase.kept.within τ.dstIp τ (by simp) hfor
      rw [hr.tasks]
      exact hrest.request hr hnone (by omega)
  · simp only [beq_eq_false_iff_ne.2 htype, Bool.false_eq_true, if_false, Nat.add_zero]
    obtain ⟨htasks, htimers⟩ := handle_retries_sublist htype hh
    rw [htasks]
    refine hbase.subperm fun d => List.Sublist.subperm ?_
    simp only [List.filter_append, List.filter_nil]
    exact (htimers d).append (List.Sublist.append_left (List.nil_sublist _) _)

theorem Inv.output {daddr : U32} (h : Inv b)
    (hok : Action.SeesRepetition p (.output mem clk daddr) b) :
    Repeats ((Aodv.output p mem clk daddr b.router).timerQueue ++
        ((Aodv.output p mem clk daddr b.router).taskQ ++ b.running.toList)) fun d =>
      restarted b d + requestsFor d b.router (Aodv.output p mem clk daddr b.router) := by
  have hbase : Repeats _ (restarted b) := h.mono (restarted_le b)
  refine hbase.discover clk p.myIp daddr
    ((requested_output p mem clk daddr b.router).imp_right fun ⟨hstarts, hr⟩ => ?_)
  have htimer : retryTimers daddr b.router = [] := by
    simp only [startsDiscovery, Bool.and_eq_true, Option.isNone_iff_eq_none] at hstarts
    exact List.filter_eq_nil_iff.2 (List.find?_eq_none.1 hstarts.1.1.1.1.2)
  have hnone : repetitions daddr b = [] := by
    rw [repetitions, List.filter_append, List.append_eq_nil_iff]
    exact ⟨htimer, List.filter_eq_nil_iff.2 fun τ hτ => by simp [hok hstarts τ hτ]⟩
  exact ⟨hr, if_pos hnone, hnone⟩

theorem Inv.next {a : Action} {running : Option Task} (h : Inv b)
    (hok : Action.SeesRepetition p a b) (hs : Busy.next p a b = some (s, running)) :
    Repeats (s.timerQueue ++ (s.taskQ ++ running.toList)) fun d =>
      restarted b d + if discovers a b then requestsFor d b.router s else 0 := by
  have hbase : Repeats _ (restarted b) := h.mono (restarted_le b)
  cases a with
  | packet mem clk a =>
    simp only [Busy.next, Aodv.step, Option.map_some, Option.some.injEq, Prod.mk.injEq] at hs
    obtain ⟨hs, rfl⟩ := hs
    obtain ⟨n, q, rfl, hq⟩ := packetIn_cases hs
    change Repeats _ (restarted b)
    refine hbase.subperm fun d => ?_
    have hnone : q.filter (Task.isFor d .resendRreq) = [] := by
      rcases hq with rfl | rfl <;> simp [Task.isFor, taskOfPacket, createTask]
    simp only [List.filter_append, hnone, List.append_nil]
    exact List.Subperm.refl _
  | output mem clk daddr =>
    simp only [Busy.next, Aodv.step, Option.map_some, Option.some.injEq, Prod.mk.injEq] at hs
    obtain ⟨rfl, rfl⟩ := hs
    exact h.output hok
  | timer clk =>
    simp only [Busy.next, Aodv.step, Option.map_some, Option.some.injEq, Prod.mk.injEq] at hs
    obtain ⟨rfl, rfl⟩ := hs
    change Repeats _ (restarted b)
    refine hbase.perm (List.perm_iff_count.2 fun τ => ?_)
    have hsplit : b.router.timerQueue.count τ =
        (b.router.timerQueue.takeWhile fun t => timeBeforeEq t.time clk.now).count τ +
          (b.router.timerQueue.dropWhile fun t => timeBeforeEq t.time clk.now).count τ := by
      rw [← List.count_append, List.takeWhile_append_dropWhile]
    simp only [timerQueueSignal, List.count_append]
    omega
  | take =>
    change Repeats _ (restarted b)
    cases hrunning : b.running with
    | some τ => simp [Busy.next, hrunning] at hs
    | none =>
      rw [hrunning] at hbase
      cases hq : b.router.taskQ with
      | nil =>
        simp only [Busy.next, hrunning, getTask, hq, Option.some.injEq, Prod.mk.injEq] at hs
        obtain ⟨rfl, rfl⟩ := hs
        exact hbase
      | cons τ q =>
        simp only [Busy.next, hrunning, getTask, hq, Option.some.injEq, Prod.mk.injEq] at hs
        obtain ⟨rfl, rfl⟩ := hs
        rw [hq, Option.toList_none, List.append_nil] at hbase
        exact hbase.perm ((List.perm_append_singleton τ q).append_left _)
  | run mem clk =>
    cases hrunning : b.running with
    | none =>
      simp only [Busy.next, hrunning, Option.some.injEq, Prod.mk.injEq] at hs
      obtain ⟨rfl, rfl⟩ := hs
      rw [hrunning] at hbase
      simp only [discovers, hrunning, Option.any_none, Bool.false_eq_true, if_false, Nat.add_zero]
      exact hbase
    | some τ =>
      simp only [Busy.next, hrunning] at hs
      obtain ⟨t, hh, he⟩ := Option.map_eq_some_iff.1 hs
      obtain ⟨rfl, rfl⟩ := Prod.mk.inj he
      simp only [discovers, hrunning, Option.any_some]
      exact h.run hrunning hh

theorem Inv.step {a : Action} (h : Inv b) (hok : Action.SeesRepetition p a b)
    (hs : Busy.step p a b = some b') : Inv b' := by
  obtain ⟨⟨s, running⟩, hnext, rfl⟩ := Option.map_eq_some_iff.1 hs
  exact h.next hok hnext

theorem Inv.start (h : Busy.start p clk = some b) : Inv b := by
  obtain ⟨s, hs, rfl⟩ := Option.map_eq_some_iff.1 h
  obtain ⟨-, htasks, htimers⟩ := initModule_agenda hs
  have hno : ∀ τ ∈ s.timerQueue ++ (s.taskQ ++ []), τ.type ≠ .resendRreq := fun τ hτ htype => by
    rw [htasks, List.append_nil, List.append_nil] at hτ
    rcases htimers τ hτ with h | h <;> exact TaskType.noConfusion (h.symm.trans htype)
  have hfilter : ∀ d, (s.timerQueue ++ (s.taskQ ++ [])).filter (Task.isFor d .resendRreq) = [] :=
    fun d =>
    List.filter_eq_nil_iff.2 fun τ hτ => by simp [Task.isFor, hno τ hτ]
  refine ⟨⟨fun d => ?_, fun d τ hτ hfor => ?_, fun _ => Nat.zero_le _⟩,
    fun τ hτ htype => absurd htype (hno τ hτ)⟩
  · exact (congrArg List.length (hfilter d)).le.trans (Nat.zero_le _)
  · exact absurd hfor (List.filter_eq_nil_iff.1 (hfilter d) τ hτ)

end Busy

/-! ## Calls that overlap -/

/-- The part of `gen_rreq` behind `find_timer`. -/
def askFor (mem : Mem) (clk : Clock) (srcIp dstIp : U32) (s : Router) : Router :=
  if mem .rreq 0 && mem .rreq 1 then broadcastRreq mem clk srcIp dstIp rreqRetries s else s

/-- `askFor` broadcasts a request. -/
def asksFor (mem : Mem) (clk : Clock) (srcIp : U32) (s : Router) : Bool :=
  mem .rreq 0 && mem .rreq 1 && (foundRoute clk srcIp s).isSome && mem .floodId 0

/-- `output_handler` comes as far as `find_timer` and finds no repetition. -/
def looksInVain (p : Params) (clk : Clock) (d : U32) (s : Router) : Bool :=
  unrouted p clk d s && (findTimer d .resendRreq s).isNone

/-- The module, and the destinations for which a call of `output_handler` has found no repetition
and has not gone on yet. -/
structure Calls where
  busy : Busy
  asking : List U32

/-- What can happen when the calls of `output_handler` are split: one looks for a repetition,
and ends there if it need not ask; or a call that has looked in vain goes on. -/
inductive Call
  | whole (a : Action)
  | look (mem : Mem) (clk : Clock) (daddr : U32)
  | ask (k : ℕ) (mem : Mem) (clk : Clock)

namespace Calls

variable {c c' : Calls}

/-- A call for `d` goes on: it asks, and netfilter queues its packet. -/
def asked (p : Params) (mem : Mem) (clk : Clock) (d : U32) (s : Router) : Router :=
  { askFor mem clk p.myIp d s with
    queue := s.queue.enqueue { postRouting := true, daddr := d } }

def step (p : Params) : Call → Calls → Option Calls
  | .whole a, c => (Busy.step p a c.busy).map fun b => { c with busy := b }
  | .look mem clk d, c =>
    if looksInVain p clk d c.busy.router then
      some { busy := { c.busy with router := searched clk d c.busy.router }
             asking := c.asking ++ [d] }
    else (Busy.step p (.output mem clk d) c.busy).map fun b => { c with busy := b }
  | .ask k mem clk, c =>
    match c.asking[k]? with
    | none => none
    | some d =>
      let t := asked p mem clk d c.busy.router
      some { busy := { c.busy with
               router := t
               requests := fun e => Busy.restarted c.busy e + requestsFor e c.busy.router t }
             asking := c.asking.eraseIdx k }

/-- What `init_module` leaves. -/
def start (p : Params) (clk : Clock) : Option Calls :=
  (Busy.start p clk).map fun b => { busy := b, asking := [] }

end Calls

/-- When a call goes on to broadcast a request, there is no repetition: neither on the timer queue
any more, nor a task, nor in the hands of the thread. -/
def Call.SeesRepetition (p : Params) : Call → Calls → Prop
  | .whole a, c => a.SeesRepetition p c.busy
  | .look _ _ _, _ => True
  | .ask k mem clk, c => asksFor mem clk p.myIp c.busy.router = true →
      ∀ d ∈ c.asking[k]?.toList, Busy.repetitions d c.busy = []

instance (p : Params) : ∀ a c, Decidable (Call.SeesRepetition p a c)
  | .whole a, c => inferInstanceAs (Decidable (a.SeesRepetition p c.busy))
  | .look _ _ _, _ => isTrue trivial
  | .ask k mem clk, c =>
    -- not by going through all addresses
    have : Decidable (∀ d ∈ c.asking[k]?.toList, Busy.repetitions d c.busy = []) :=
      List.decidableBAll _ _
    inferInstanceAs (Decidable (asksFor mem clk p.myIp c.busy.router = true →
      ∀ d ∈ c.asking[k]?.toList, Busy.repetitions d c.busy = []))

theorem genRreq_of_none {srcIp : U32} (h : findTimer d .resendRreq s = none) :
    genRreq mem clk srcIp d s = askFor mem clk srcIp d s := by
  rw [genRreq, h]
  rfl

theorem requested_askFor (mem : Mem) (clk : Clock) (srcIp d : U32) (s : Router) :
    Idle s (askFor mem clk srcIp d s) ∨ asksFor mem clk srcIp s = true ∧
      Requested clk srcIp d rreqRetries s (askFor mem clk srcIp d s) := by
  unfold askFor
  split
  · rename_i hmem
    refine (requested_broadcastRreq mem clk srcIp d rreqRetries s).imp_right fun ⟨hsends, h⟩ => ?_
    rw [asksFor, Bool.and_assoc, hmem, hsends]
    exact ⟨rfl, h⟩
  · exact .inl ⟨rfl, rfl, rfl⟩

namespace Calls

variable {c c' : Calls}

/-- Looking and going on at once is a call of `output_handler`. -/
theorem exec_look_ask {mem' : Mem} (h : looksInVain p clk d c.busy.router = true) :
    (exec (step p) [.look mem' clk d, .ask c.asking.length mem clk] c).map
        (fun c' => (c'.busy.router, c'.asking)) =
      some (output p mem clk d c.busy.router, c.asking) := by
  have hlook := h
  rw [looksInVain, Bool.and_eq_true, Option.isNone_iff_eq_none] at hlook
  have hout : output p mem clk d c.busy.router =
      asked p mem clk d (searched clk d c.busy.router) := by
    rw [output_of_unrouted hlook.1, genRreq_of_none (show findTimer d .resendRreq
      (searched clk d c.busy.router) = none from hlook.2)]
    rfl
  simp [exec, step, h, hout, List.eraseIdx_append_of_length_le]

/-- A call that goes on keeps the repetitions in order. -/
theorem inv_ask (h : c.busy.Inv)
    (hok : asksFor mem clk p.myIp c.busy.router = true → Busy.repetitions d c.busy = []) :
    Busy.Inv { c.busy with
      router := asked p mem clk d c.busy.router
      requests := fun e => Busy.restarted c.busy e +
        requestsFor e c.busy.router (asked p mem clk d c.busy.router) } := by
  have hbase : Repeats _ (Busy.restarted c.busy) := h.mono (Busy.restarted_le c.busy)
  exact hbase.discover clk p.myIp d ((requested_askFor mem clk p.myIp d c.busy.router).imp_right
    fun ⟨hasks, hr⟩ => ⟨⟨hr.tasks, hr.requests, hr.timers⟩, if_pos (hok hasks), hok hasks⟩)

theorem inv_step {a : Call} (h : c.busy.Inv) (hok : a.SeesRepetition p c)
    (hs : step p a c = some c') : c'.busy.Inv := by
  cases a with
  | whole a =>
    obtain ⟨b, hb, rfl⟩ := Option.map_eq_some_iff.1 hs
    exact h.step hok hb
  | look mem clk d =>
    rw [step] at hs
    split at hs
    · obtain rfl := Option.some.inj hs
      exact h
    · -- a call that ends without a request
      rename_i hends
      obtain ⟨b, hb, rfl⟩ := Option.map_eq_some_iff.1 hs
      have hsees : Action.SeesRepetition p (.output mem clk d) c.busy := fun hstarts => by
        simp only [startsDiscovery, Bool.and_eq_true] at hstarts
        refine absurd ?_ hends
        rw [looksInVain, hstarts.1.1.1.1.1, hstarts.1.1.1.1.2]
        rfl
      exact h.step hsees hb
  | ask k mem clk =>
    rw [step] at hs
    cases hd : c.asking[k]? with
    | none =>
      rw [hd] at hs
      cases hs
    | some d =>
      rw [hd] at hs
      obtain rfl := Option.some.inj hs
      exact inv_ask h fun hasks => hok hasks d (by rw [hd]; exact List.mem_singleton_self d)

theorem inv_start (h : Calls.start p clk = some c) : c.busy.Inv := by
  obtain ⟨b, hb, rfl⟩ := Option.map_eq_some_iff.1 h
  exact .start hb

/-! ## Runs -/

/-- In a run in which no call asks while a repetition for its destination is on the timer queue, a
task or in the hands of the thread, there is one discovery for each destination. -/
theorem one_discovery {calls : List Call} (h₀ : start p clk = some c)
    (hok : AllSteps (Calls.step p) (Call.SeesRepetition p) calls c) :
    Along (Calls.step p) (fun c => c.busy.OneDiscovery) calls c :=
  (along_of_step (fun _ _ _ h hok hs => inv_step h hok hs) (inv_start h₀) hok).mono
    fun _ h => h.oneDiscovery

/-- Packets for nodes 3 and 4 start a discovery each in turn; the one for node 3 is repeated. -/
def searchRun : List Call :=
  [.look .plenty (clockAt 1) (peer 3), .look .plenty (clockAt 1) (peer 4),
    .ask 0 .plenty (clockAt 1), .ask 0 .plenty (clockAt 2), .whole (.timer (clockAt 1601))] ++
    (List.replicate 3 [.whole .take, .whole (.run .plenty (clockAt 1601))]).flatten

theorem one_discovery_searchRun : ∃ c, start plainNode (clockAt 0) = some c ∧
    Along (Calls.step plainNode) (fun c => c.busy.OneDiscovery) searchRun c := by
  have hok : (start plainNode (clockAt 0)).all (fun c => decide (AllSteps (Calls.step plainNode)
      (Call.SeesRepetition plainNode) searchRun c)) = true := by decide +kernel
  obtain ⟨c, hc⟩ : ∃ c, start plainNode (clockAt 0) = some c :=
    ⟨_, by rw [start, Busy.start, initModule_eq, Option.map_some, Option.map_some]⟩
  rw [hc] at hok
  exact ⟨c, hc, one_discovery hc (of_decide_eq_true hok)⟩

/-- Another packet for node 3 goes out when the repetition has become a task. -/
def eagerRun : List Call :=
  [.whole (.output .plenty (clockAt 1) (peer 3)), .whole (.timer (clockAt 1601)),
    .whole (.output .plenty (clockAt 1602) (peer 3))]

/-- There are two repetitions for node 3 then. -/
theorem not_one_discovery_eagerRun :
    ¬∀ (p : Params) (clk : Clock) (calls : List Call) (c c' : Calls), start p clk = some c →
      exec (Calls.step p) calls c = some c' →
        Along (Calls.step p) (fun c => c.busy.OneDiscovery) calls c := by
  intro h
  have hrun : ((start plainNode (clockAt 0)).bind (exec (Calls.step plainNode) eagerRun)).any
      (fun c' => (Busy.repetitions (peer 3) c'.busy).length == 2) = true := by decide +kernel
  obtain ⟨c', hc', hq⟩ := (Option.any_eq_true _ _).1 hrun
  obtain ⟨c, hc, he⟩ := Option.bind_eq_some_iff.1 hc'
  have halong := h plainNode _ _ c c' hc he
  rw [← List.append_nil eagerRun] at halong
  have hone : c'.busy.OneDiscovery := halong.reached he
  have hle := (hone (peer 3)).1
  rw [eq_of_beq hq] at hle
  omega

end Calls

end MobileCloudCaching.Aodv
