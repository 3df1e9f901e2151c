import MobileCloudCaching.Aodv.Retries

/-!
# Queued packets and the repetition of requests

A packet without a route waits in the packet queue until a route releases it or the last repetition
of the request drops it.  `check_rrep` deletes the repetitions before `update_aodv_route` has
decided whether the reply brings a route: when the route is refused, the packets stay behind.
-/

namespace MobileCloudCaching.Aodv

open Transition

variable {p : Params} {mem : Mem} {clk : Clock} {s t : Router} {d : U32}

/-- A repetition of the request for `d` is on the timer queue or the task queue. -/
def Retrying (d : U32) (s : Router) : Prop :=
  ∃ τ ∈ s.timerQueue ++ s.taskQ, τ.isFor d .resendRreq = true

/-- No packet is stranded: there is a repetition for the destination of every packet that waits. -/
def NoneStranded (s : Router) : Prop := ∀ e ∈ s.queue.list, Retrying e.daddr s

/-- Allocations succeed, and the table has a route for the own address. -/
def Supplied (p : Params) (e : Event) (s : Router) : Prop :=
  e.Succeeds ∧ (foundRoute e.clk p.myIp s).isSome = true

/-- When a reply that stops the repetition is handled while packets wait for its destination, its
route is accepted, or the next repetition is on the task queue already. -/
def RepliesSettle : Event → Router → Prop :=
  NextTask fun _ clk τ s => ∀ m, τ.type = .packet (.rrep m) → m.srcIp ≠ m.dstIp →
    validAodvNeigh clk τ.srcIp s = true → (∃ e ∈ s.queue.list, e.daddr = m.dstIp) →
    (m.update τ).accepted clk s = true ∨ ∃ τ' ∈ s.taskQ, τ'.isFor m.dstIp .resendRreq = true

/-! ## What the queues hold -/

/-- Repetitions are for requests of this node, and the packets have been queued on their way out. -/
structure OwnRetries (p : Params) (s : Router) : Prop where
  retries : ∀ τ ∈ s.timerQueue ++ s.taskQ, τ.type = .resendRreq → τ.srcIp = p.myIp ∧ τ.id = τ.dstIp
  packets : ∀ e ∈ s.queue.list, e.postRouting = true

theorem OwnRetries.of_subset (h : OwnRetries p s)
    (hτ : ∀ τ ∈ t.timerQueue ++ t.taskQ, τ.type = .resendRreq → τ ∈ s.timerQueue ++ s.taskQ)
    (hq : t.queue.list ⊆ s.queue.list) : OwnRetries p t where
  retries τ hmem htype := h.retries τ (hτ τ hmem htype) htype
  packets e he := h.packets e (hq he)

theorem KeepsRetries.mem_iff {τ : Task} (hk : KeepsRetries s t) (hτ : τ.type = .resendRreq) :
    τ ∈ t.timerQueue ++ t.taskQ ↔ τ ∈ s.timerQueue ++ s.taskQ := by
  have htimers : τ ∈ t.timerQueue ↔ τ ∈ s.timerQueue := by
    have := congrArg (τ ∈ ·) (hk.timers τ.id)
    simpa [mem_retryTimers, hτ] using this
  rw [List.mem_append, List.mem_append, htimers, hk.tasks]

theorem KeepsRetries.retrying (hk : KeepsRetries s t) : Retrying d t ↔ Retrying d s := by
  have hmem : ∀ τ : Task, τ.isFor d .resendRreq = true → (τ ∈ t.timerQueue ++ t.taskQ ↔
      τ ∈ s.timerQueue ++ s.taskQ) := fun τ hτ => by
    simp only [Task.isFor, Bool.and_eq_true, beq_iff_eq] at hτ
    exact hk.mem_iff hτ.2
  constructor
  · rintro ⟨τ, h, hτ⟩
    exact ⟨τ, (hmem τ hτ).1 h, hτ⟩
  · rintro ⟨τ, h, hτ⟩
    exact ⟨τ, (hmem τ hτ).2 h, hτ⟩

theorem KeepsRetries.ownRetries (hk : KeepsRetries s t) (h : OwnRetries p s) : OwnRetries p t :=
  h.of_subset (fun _ hmem hτ => (hk.mem_iff hτ).1 hmem) hk.packets

theorem KeepsRetries.noneStranded (hk : KeepsRetries s t) (h : NoneStranded s) : NoneStranded t :=
  fun e he => hk.retrying.2 (h e (hk.packets he))

/-- Taking a task from the queue. -/
theorem retrying_pop {τ : Task} {q : List Task} (hq : s.taskQ = τ :: q) :
    Retrying d s ↔ τ.isFor d .resendRreq = true ∨ Retrying d { s with taskQ := q } := by
  simp only [Retrying, hq, List.mem_append, List.mem_cons]
  constructor
  · rintro ⟨τ', h | rfl | h, hτ'⟩
    · exact .inr ⟨τ', .inl h, hτ'⟩
    · exact .inl hτ'
    · exact .inr ⟨τ', .inr h, hτ'⟩
  · rintro (hτ | ⟨τ', h | h, hτ'⟩)
    · exact ⟨τ, .inr (.inl rfl), hτ⟩
    · exact ⟨τ', .inl h, hτ'⟩
    · exact ⟨τ', .inr (.inr h), hτ'⟩

theorem retrying_congr (h : agenda t = agenda s) : Retrying d t ↔ Retrying d s :=
  (keepsRetries_of_agenda h).retrying

/-! ## Broadcasting a request -/

theorem retrying_insertRreqTimer {srcIp dstIp : U32} {n : ℕ} :
    Retrying d (insertRreqTimer true clk srcIp dstIp n s) ↔ d = dstIp ∨ Retrying d s := by
  have hmem : ∀ τ, τ ∈ (insertRreqTimer true clk srcIp dstIp n s).timerQueue ++ s.taskQ ↔
      τ = rreqTimerTask clk srcIp dstIp n ∨ τ ∈ s.timerQueue ++ s.taskQ := fun τ => by
    rw [List.mem_append, List.mem_append, ← or_assoc]
    exact or_congr_left mem_orderedInsert_timer
  constructor
  · rintro ⟨τ, h, hτ⟩
    rcases (hmem τ).1 h with rfl | h
    · simp only [Task.isFor, Bool.and_eq_true, beq_iff_eq] at hτ
      exact .inl hτ.1.symm
    · exact .inr ⟨τ, h, hτ⟩
  · rintro (rfl | ⟨τ, h, hτ⟩)
    · exact ⟨_, (hmem _).2 (.inl rfl), isFor_rreqTimerTask _ _ _⟩
    · exact ⟨τ, (hmem τ).2 (.inr h), hτ⟩

theorem retrying_broadcastRreq {srcIp dstIp : U32} {n : ℕ} (hmem : mem.Succeeds)
    (hsrc : (foundRoute clk srcIp s).isSome = true) :
    Retrying d (broadcastRreq mem clk srcIp dstIp n s) ↔ d = dstIp ∨ Retrying d s := by
  refine (retrying_congr agenda_broadcastRreq).trans ?_
  rw [hsrc, hmem, hmem]
  exact retrying_insertRreqTimer

/-! ## The invariant -/

theorem OwnRetries.insertRreqTimer {ok : Bool} {dstIp : U32} {n : ℕ} (h : OwnRetries p s) :
    OwnRetries p (insertRreqTimer ok clk p.myIp dstIp n s) := by
  cases ok with
  | false => exact h
  | true =>
    refine ⟨fun τ hmem hτ => ?_, h.packets⟩
    rcases List.mem_append.1 hmem with hmem | hmem
    · rcases mem_insertRreqTimer hmem with rfl | hmem
      · exact ⟨rfl, rfl⟩
      · exact h.retries τ (List.mem_append_left _ hmem) hτ
    · exact h.retries τ (List.mem_append_right _ hmem) hτ

theorem OwnRetries.broadcastRreq {dstIp : U32} {n : ℕ} (h : OwnRetries p s) :
    OwnRetries p (broadcastRreq mem clk p.myIp dstIp n s) :=
  (keepsRetries_of_agenda agenda_broadcastRreq).ownRetries h.insertRreqTimer

theorem OwnRetries.pop {τ : Task} {q : List Task} (h : OwnRetries p s) (hq : s.taskQ = τ :: q) :
    OwnRetries p { s with taskQ := q } := by
  refine h.of_subset (fun τ' hmem _ => ?_) (List.Subset.refl _)
  rw [hq]
  rcases List.mem_append.1 hmem with hmem | hmem
  · exact List.mem_append_left _ hmem
  · exact List.mem_append_right _ (List.mem_cons_of_mem _ hmem)

theorem OwnRetries.genRreq {dstIp : U32} (h : OwnRetries p s) :
    OwnRetries p (genRreq mem clk p.myIp dstIp s) := by
  unfold Aodv.genRreq
  split
  · exact h
  · split
    · exact h.broadcastRreq
    · exact h

theorem packets_enqueue {e e' : QueueEntry} {q : PacketQueue} (h : e' ∈ (q.enqueue e).list) :
    e' = e ∨ e' ∈ q.list := by
  unfold PacketQueue.enqueue at h
  split at h
  · exact .inr h
  · split at h
    · exact .inr h
    · exact (List.mem_append.1 h).symm.imp_left List.mem_singleton.1

theorem OwnRetries.output {daddr : U32} (h : OwnRetries p s) :
    OwnRetries p (output p mem clk daddr s) := by
  cases hu : unrouted p clk daddr s with
  | false => exact (keepsRetries_of_agenda (agenda_output_of_routed hu)).ownRetries h
  | true =>
    have hgen : OwnRetries p (Aodv.genRreq mem clk p.myIp daddr (searched clk daddr s)) :=
      ((keepsRetries_of_agenda (agenda_searched daddr)).ownRetries h).genRreq
    rw [output_of_unrouted hu]
    refine ⟨hgen.retries, fun e he => ?_⟩
    rcases packets_enqueue he with rfl | he
    · rfl
    · exact h.packets e he

theorem OwnRetries.deleteTimer {ip : U32} {type : TaskType} (h : OwnRetries p s) :
    OwnRetries p (deleteTimer ip type s) := by
  refine h.of_subset (fun τ hmem _ => ?_) (List.Subset.refl _)
  rcases List.mem_append.1 hmem with hmem | hmem
  · exact List.mem_append_left _ (List.mem_filter.1 hmem).1
  · exact List.mem_append_right _ hmem

theorem OwnRetries.resendRreq {τ : Task} (h : OwnRetries p s) (hsrc : τ.srcIp = p.myIp) :
    OwnRetries p (resendRreq mem clk τ s) := by
  unfold Aodv.resendRreq
  split
  · exact ⟨h.retries, fun e he => h.packets e (by
      rw [ipqDropIp, PacketQueue.list_dropIp] at he
      exact (List.mem_filter.1 he).1)⟩
  · split
    · rw [hsrc]
      exact h.broadcastRreq
    · exact h

/-- A task that is a reply from a valid neighbour, and no hello. -/
def StopsRetries (clk : Clock) (τ : Task) (s : Router) : Prop :=
  ∃ m, τ.type = .packet (.rrep m) ∧ m.srcIp ≠ m.dstIp ∧ validAodvNeigh clk τ.srcIp s = true

theorem keepsRetries_of_not_stops {τ : Task} (hτ : τ.type ≠ .resendRreq)
    (hs : ¬StopsRetries clk τ s) (h : handle p mem clk τ s = some t) : KeepsRetries s t := by
  refine handle_keepsRetries hτ (fun m hm => ?_) h
  by_contra hno
  push Not at hno
  exact hs ⟨m, hm, hno.1, by simpa using hno.2⟩

theorem OwnRetries.handle {τ : Task} (h : OwnRetries p s)
    (hsrc : τ.type = .resendRreq → τ.srcIp = p.myIp) (hh : handle p mem clk τ s = some t) :
    OwnRetries p t := by
  by_cases hτ : τ.type = .resendRreq
  · rw [handle_resend hτ hh]
    exact h.resendRreq (hsrc hτ)
  by_cases hs : StopsRetries clk τ s
  · obtain ⟨m, hm, hne, hv⟩ := hs
    obtain ⟨s₁, ht, hu⟩ := handle_reply hm hne hv hh
    have hx : OwnRetries p (Aodv.deleteTimer m.dstIp .resendRreq s) := h.deleteTimer
    refine (keepsRetries_of_agenda ht).ownRetries ?_
    rcases agenda_updateAodvRoute_or hu with hs₁ | hs₁
    · exact (keepsRetries_of_agenda hs₁).ownRetries hx
    · exact ((keepsRetries_ipqSendIp _).trans (keepsRetries_of_agenda hs₁)).ownRetries hx
  · exact (keepsRetries_of_not_stops hτ hs hh).ownRetries h

/-- The task of a packet is no repetition. -/
theorem mem_of_arrival {a : Arrival} {τ : Task} {l l' q : List Task}
    (hq : q = [] ∨ q = [taskOfPacket clk a]) (h : τ ∈ l ++ (l' ++ q)) (hτ : τ.type = .resendRreq) :
    τ ∈ l ++ l' := by
  rw [← List.append_assoc] at h
  rcases List.mem_append.1 h with h | h
  · exact h
  · rcases hq with rfl | rfl
    · exact absurd h List.not_mem_nil
    · rw [List.mem_singleton.1 h] at hτ
      exact TaskType.noConfusion hτ

theorem OwnRetries.step {e : Event} (h : OwnRetries p s) (hs : step p e s = some t) :
    OwnRetries p t := by
  cases e with
  | packet mem clk a =>
    obtain ⟨n, q, rfl, hq⟩ := packetIn_cases (Option.some.inj hs)
    exact h.of_subset (fun τ hmem hτ => mem_of_arrival hq hmem hτ) (List.Subset.refl _)
  | output mem clk daddr =>
    obtain rfl : Aodv.output p mem clk daddr s = t := Option.some.inj hs
    exact h.output
  | timer clk =>
    obtain rfl : timerQueueSignal clk s = t := Option.some.inj hs
    exact h.of_subset (fun τ hmem _ => timerQueueSignal_mem.1 hmem) (List.Subset.refl _)
  | thread mem clk =>
    rcases runTask_cases hs with ⟨-, rfl⟩ | ⟨τ, -, hq, hh⟩
    · exact h
    · exact (h.pop hq).handle (fun hτ => (h.retries τ (by rw [hq]; simp) hτ).1) hh

/-! ## One step -/

theorem noneStranded_congr (h : agenda t = agenda s) : NoneStranded t ↔ NoneStranded s :=
  ⟨(keepsRetries_of_agenda h.symm).noneStranded, (keepsRetries_of_agenda h).noneStranded⟩

theorem retrying_iff : Retrying d s ↔
    retryTimers d s ≠ [] ∨ ∃ τ ∈ s.taskQ, τ.isFor d .resendRreq = true := by
  have h : retryTimers d s ≠ [] ↔ ∃ τ ∈ s.timerQueue, τ.isFor d .resendRreq = true := by
    rw [retryTimers, Ne, List.filter_eq_nil_iff]
    push Not
    exact Iff.rfl
  rw [h, Retrying]
  constructor
  · rintro ⟨τ, hmem, hτ⟩
    exact (List.mem_append.1 hmem).imp (fun h => ⟨τ, h, hτ⟩) fun h => ⟨τ, h, hτ⟩
  · rintro (⟨τ, hmem, hτ⟩ | ⟨τ, hmem, hτ⟩)
    · exact ⟨τ, List.mem_append_left _ hmem, hτ⟩
    · exact ⟨τ, List.mem_append_right _ hmem, hτ⟩

/-- After the repetitions for `d` have been deleted, only those on the task queue are left. -/
theorem retrying_deleteTimer_self : Retrying d (deleteTimer d .resendRreq s) ↔
    ∃ τ ∈ s.taskQ, τ.isFor d .resendRreq = true := by
  rw [retrying_iff, retryTimers_deleteTimer]
  exact or_iff_right fun h => h rfl

theorem retrying_deleteTimer_of_ne {ip : U32} (h : d ≠ ip) :
    Retrying d (deleteTimer ip .resendRreq s) ↔ Retrying d s := by
  rw [retrying_iff, retrying_iff, retryTimers_deleteTimer_of_ne h]
  rfl

/-- Packets that a route to `ip` releases or drops are gone. -/
theorem daddr_ne_of_mem_filter (hp : ∀ e ∈ s.queue.list, e.postRouting = true) {ip : U32}
    {e : QueueEntry} (he : e ∈ s.queue.list.filter fun e => !PacketQueue.ipCmp ip e) :
    e ∈ s.queue.list ∧ e.daddr ≠ ip := by
  obtain ⟨hmem, hcmp⟩ := List.mem_filter.1 he
  refine ⟨hmem, fun hip => ?_⟩
  simp [PacketQueue.ipCmp, hp e hmem, hip] at hcmp

/-- A reply that stops the repetition strands nothing exactly if nothing waits, the route is
accepted, or a repetition is on the task queue. -/
theorem noneStranded_reply {ok : Bool} {u : Update} (hok : ok = true) (hI : OwnRetries p s)
    (hs : NoneStranded s)
    (hu : updateAodvRoute ok clk u (deleteTimer u.ip .resendRreq s) = some t) :
    NoneStranded t ↔ ((∃ e ∈ s.queue.list, e.daddr = u.ip) →
      u.accepted clk s = true ∨ ∃ τ ∈ s.taskQ, τ.isFor u.ip .resendRreq = true) := by
  have hkeep : ∀ e ∈ s.queue.list, e.daddr ≠ u.ip →
      Retrying e.daddr (deleteTimer u.ip .resendRreq s) :=
    fun e he hne => (retrying_deleteTimer_of_ne hne).2 (hs e he)
  have hagenda := agenda_updateAodvRoute hok hu
  have hcongr : u.accepted clk (deleteTimer u.ip .resendRreq s) = u.accepted clk s :=
    Update.accepted_congr rfl rfl
  rw [hcongr] at hagenda
  rw [noneStranded_congr hagenda]
  cases hacc : u.accepted clk s with
  | true =>
    refine iff_of_true (fun e he => ?_) fun _ => .inl rfl
    rw [if_pos rfl, ipqSendIp, PacketQueue.list_sendIp] at he
    obtain ⟨hmem, hne⟩ := daddr_ne_of_mem_filter hI.packets he
    exact hkeep e hmem hne
  | false =>
    simp only [Bool.false_eq_true, if_false, false_or]
    constructor
    · rintro h ⟨e, he, hd⟩
      exact retrying_deleteTimer_self.1 (hd ▸ h e he)
    · intro h e he
      by_cases hd : e.daddr = u.ip
      · rw [hd]
        exact retrying_deleteTimer_self.2 (h ⟨e, he, hd⟩)
      · exact hkeep e he hd

/-- A repetition goes on or drops what waits for it. -/
theorem noneStranded_resend {τ : Task} (hmem : mem.Succeeds)
    (hself : (foundRoute clk p.myIp s).isSome = true) (hI : OwnRetries p s)
    (hsrc : τ.srcIp = p.myIp) (hs : ∀ e ∈ s.queue.list, e.daddr = τ.dstIp ∨ Retrying e.daddr s) :
    NoneStranded (resendRreq mem clk τ s) := by
  unfold resendRreq
  split
  · intro e he
    rw [ipqDropIp, PacketQueue.list_dropIp] at he
    obtain ⟨hin, hne⟩ := daddr_ne_of_mem_filter hI.packets he
    exact (hs e hin).resolve_left hne
  · rw [hmem, if_pos rfl]
    intro e he
    rw [hsrc] at he ⊢
    rw [retrying_broadcastRreq hmem hself]
    rw [(agenda_iff.1 agenda_broadcastRreq).2.2.2, insertRreqTimer] at he
    refine hs e ?_
    split at he
    · exact he
    · exact he

theorem noneStranded_output {daddr : U32} (hmem : mem.Succeeds)
    (hself : (foundRoute clk p.myIp s).isSome = true) (hs : NoneStranded s) :
    NoneStranded (output p mem clk daddr s) := by
  cases hu : unrouted p clk daddr s with
  | false => exact (noneStranded_congr (agenda_output_of_routed hu)).2 hs
  | true =>
    have hgen : ∀ d, Retrying d (genRreq mem clk p.myIp daddr (searched clk daddr s)) ↔
        d = daddr ∨ Retrying d s := fun d => by
      have hd : Retrying d (searched clk daddr s) ↔ Retrying d s :=
        retrying_congr (agenda_searched _)
      unfold genRreq
      split
      · refine hd.trans (or_iff_right_of_imp ?_).symm
        rintro rfl
        obtain ⟨τ, hτ⟩ := Option.isSome_iff_exists.1 ‹_›
        exact ⟨τ, List.mem_append_left _ (List.mem_of_find?_eq_some hτ), List.find?_some hτ⟩
      · rw [hmem, hmem]
        refine (retrying_broadcastRreq hmem ?_).trans (or_congr_right hd)
        rwa [foundRoute_searched]
    rw [output_of_unrouted hu]
    intro e he
    refine (hgen e.daddr).2 ?_
    rcases packets_enqueue he with rfl | he
    · exact .inl rfl
    · exact .inr (hs e he)

theorem noneStranded_task {τ : Task} (hmem : mem.Succeeds)
    (hself : (foundRoute clk p.myIp s).isSome = true) (hI : OwnRetries p s) (hs : NoneStranded s)
    (hq : s.taskQ = τ :: s.taskQ.tail)
    (h : handle p mem clk τ { s with taskQ := s.taskQ.tail } = some t) :
    NoneStranded t ↔ RepliesSettle (.thread mem clk) s := by
  have hpop : ∀ e ∈ s.queue.list,
      τ.isFor e.daddr .resendRreq = true ∨ Retrying e.daddr { s with taskQ := s.taskQ.tail } :=
    fun e he => (retrying_pop hq).1 (hs e he)
  have hrest : τ.type ≠ .resendRreq → NoneStranded { s with taskQ := s.taskQ.tail } :=
    fun hτ e he =>
    (hpop e he).resolve_left fun hfor => by
      simp only [Task.isFor, Bool.and_eq_true, beq_iff_eq] at hfor
      exact hτ hfor.2
  have hhead : ∀ {τ' : Task}, τ' ∈ s.taskQ.head? → τ = τ' := fun h => by
    rw [hq] at h
    exact Option.some.inj h
  by_cases hτ : τ.type = .resendRreq
  · obtain ⟨hsrc, hid⟩ := hI.retries τ (by rw [hq]; simp) hτ
    rw [handle_resend hτ h]
    refine iff_of_true (noneStranded_resend hmem hself (hI.pop hq) hsrc fun e he =>
      (hpop e he).imp_left fun hfor => ?_) fun τ' hτ' m hm => ?_
    · simp only [Task.isFor, Bool.and_eq_true, beq_iff_eq] at hfor
      rw [← hid, hfor.1]
    · rw [← hhead hτ', hτ] at hm
      exact TaskType.noConfusion hm
  by_cases hstop : StopsRetries clk τ { s with taskQ := s.taskQ.tail }
  · obtain ⟨m, hm, hne, hv⟩ := hstop
    obtain ⟨s₁, ht, hu⟩ := handle_reply hm hne hv h
    rw [noneStranded_congr ht, noneStranded_reply (hmem .route 0) (hI.pop hq) (hrest hτ) hu]
    constructor
    · intro hsettle τ' hτ' m' hm' _ _ hwait
      obtain rfl := hhead hτ'
      obtain rfl : m = m' := by simpa using hm.symm.trans hm'
      exact hsettle hwait
    · intro hsettle hwait
      exact hsettle τ (by rw [hq]; rfl) m hm hne hv hwait
  · refine iff_of_true ((keepsRetries_of_not_stops hτ hstop h).noneStranded (hrest hτ)) ?_
    intro τ' hτ' m hm hne hv _
    obtain rfl := hhead hτ'
    exact absurd ⟨m, hm, hne, hv⟩ hstop

theorem noneStranded_step {e : Event} (hI : OwnRetries p s) (hdom : Supplied p e s)
    (hs : NoneStranded s) (he : step p e s = some t) : NoneStranded t ↔ RepliesSettle e s := by
  cases e with
  | packet mem clk a =>
    obtain ⟨n, q, rfl, -⟩ := packetIn_cases (Option.some.inj he)
    refine iff_of_true (fun e hmem => ?_) trivial
    obtain ⟨τ, hin, hτ⟩ := hs e hmem
    exact ⟨τ, by rw [← List.append_assoc]; exact List.mem_append_left _ hin, hτ⟩
  | output mem clk daddr =>
    obtain rfl : output p mem clk daddr s = t := Option.some.inj he
    exact iff_of_true (noneStranded_output hdom.1 hdom.2 hs) trivial
  | timer clk =>
    obtain rfl : timerQueueSignal clk s = t := Option.some.inj he
    refine iff_of_true (fun e hmem => ?_) trivial
    obtain ⟨τ, hin, hτ⟩ := hs e hmem
    exact ⟨τ, timerQueueSignal_mem.2 hin, hτ⟩
  | thread mem clk =>
    rcases runTask_cases he with ⟨hq, rfl⟩ | ⟨τ, -, hq, hh⟩
    · refine iff_of_true hs fun τ hτ => ?_
      rw [hq] at hτ
      cases hτ
    · exact noneStranded_task hdom.1 hdom.2 hI hs hq hh

/-! ## Runs of the module -/

/-- In a run with memory and a route for the own address, no packet is ever stranded exactly
if every reply that stops the repetition for packets that wait has its route accepted, or
leaves a repetition on the task queue. -/
theorem noneStranded_iff {clk : Clock} {events : List Event} (h₀ : initModule p clk = some s)
    (hdom : AllSteps (step p) (Supplied p) events s) (he : exec (step p) events s = some t) :
    Along (step p) NoneStranded events s ↔ AllSteps (step p) RepliesSettle events s := by
  obtain ⟨hq, htasks, htimers⟩ := initModule_agenda h₀
  have hI : OwnRetries p s := by
    refine ⟨fun τ hmem hτ => ?_, fun e he => ?_⟩
    · rw [htasks, List.append_nil] at hmem
      rcases htimers τ hmem with h | h <;> rw [h] at hτ <;> exact TaskType.noConfusion hτ
    · rw [hq] at he
      exact absurd he List.not_mem_nil
  have hP : NoneStranded s := fun e he => by
    rw [hq] at he
    exact absurd he List.not_mem_nil
  exact along_iff_allSteps_of_inv (fun _ _ _ hI _ hs => OwnRetries.step hI hs)
    (fun _ _ _ hI hdom hP hs => noneStranded_step hI hdom hP hs) hI hP hdom he

/-- The route to node 3 breaks, a packet for it makes a request,
and a copy of an old reply comes in. -/
def staleReplyRun : List Event :=
  handled 1 (helloFrom (peer 2) 1) ++ handled 2 (replyFrom (peer 2) (peer 1) (peer 3) 5 0) ++
    handled 3 (errorFrom (peer 2) (peer 3) 5) ++ [.output .plenty (clockAt 4) (peer 3)] ++
    handled 5 (replyFrom (peer 2) (peer 1) (peer 3) 5 0)

theorem exec_staleReplyRun : ∃ s t, initModule plainNode (clockAt 0) = some s ∧
    exec (step plainNode) staleReplyRun s = some t ∧
    AllSteps (step plainNode) (Supplied plainNode) staleReplyRun s ∧ ¬NoneStranded t := by
  have hrun : (runFrom plainNode (clockAt 0) staleReplyRun).any (fun t =>
      t.queue.list.any (fun e => (t.timerQueue ++ t.taskQ).all
        fun τ => !τ.isFor e.daddr .resendRreq)) = true := by decide +kernel
  obtain ⟨s, t, hs, ht, hq⟩ := exists_of_runFrom _ hrun
  have hself : (initModule plainNode (clockAt 0)).all (fun s => decide (AllSteps (step plainNode)
      (fun e s => (foundRoute e.clk (peer 1) s).isSome = true) staleReplyRun s)) = true := by
    decide +kernel
  rw [hs] at hself
  have hmem : ∀ e ∈ staleReplyRun, e.Succeeds := by
    simp [staleReplyRun, handled, Event.Succeeds, Mem.plenty_succeeds]
  refine ⟨s, t, hs, ht, (allSteps_of_mem hmem s).and (of_decide_eq_true hself), fun hP => ?_⟩
  obtain ⟨e, he, hall⟩ := List.any_eq_true.1 hq
  obtain ⟨τ, hτ, hfor⟩ := hP e he
  have hnot := List.all_eq_true.1 hall τ hτ
  rw [hfor] at hnot
  exact Bool.noConfusion hnot

/-- The old reply does not settle. -/
theorem noneStranded_iff_staleReplyRun : ∃ s, initModule plainNode (clockAt 0) = some s ∧
    ¬AllSteps (step plainNode) RepliesSettle staleReplyRun s := by
  obtain ⟨s, t, hs, ht, hdom, hno⟩ := exec_staleReplyRun
  refine ⟨s, hs, fun h => hno ?_⟩
  have halong := (noneStranded_iff hs hdom ht).2 h
  exact Along.reached (by rwa [List.append_nil]) ht

/-- The packet for node 3 is left in the queue without a repetition. -/
theorem not_noneStranded_staleReplyRun :
    ¬∀ (p : Params) (clk : Clock) (events : List Event) (s t : Router), initModule p clk = some s →
      AllSteps (step p) (Supplied p) events s → exec (step p) events s = some t →
      Along (step p) NoneStranded events s := by
  intro h
  obtain ⟨s, t, hs, ht, hdom, hno⟩ := exec_staleReplyRun
  have halong := h plainNode (clockAt 0) staleReplyRun s t hs hdom ht
  exact hno (Along.reached (by rwa [List.append_nil]) ht)

end MobileCloudCaching.Aodv
