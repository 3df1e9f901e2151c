import MobileCloudCaching.Aodv.Agenda

/-!
# Listed neighbours and their time-outs

The list of neighbours is in strictly ascending order, which the early exit of `find_aodv_neigh`
relies on. A hello restarts the time-out of its sender and a time-out takes its neighbour off the
list, so that every listed neighbour has a time-out before it.
-/

namespace MobileCloudCaching.Aodv

open Transition

variable {p : Params} {mem : Mem} {clk : Clock} {s t : Router} {τ : Task} {ip : U32} {n : Neigh}

/-- `τ` is a `TASK_NEIGHBOR` for `ip`. -/
def Task.TimesOut (ip : U32) (τ : Task) : Prop := τ.type = .neighbor ∧ τ.id = ip ∧ τ.srcIp = ip

/-- A neighbour is on the list at most once, the search finds it, and it has a time-out. -/
structure NeighsWatched (s : Router) : Prop where
  ascending : (s.neighs.map Neigh.ip).Pairwise (· < ·)
  found : ∀ ip n, findAodvNeigh ip s = some n ↔ n ∈ s.neighs ∧ n.ip = ip
  watched : ∀ n ∈ s.neighs, ∃ τ ∈ s.timerQueue ++ s.taskQ, τ.TimesOut n.ip

/-- The thread does not handle a hello of `ip`. -/
def Event.Unheard (ip : U32) : Event → Router → Prop := NextTask fun _ _ τ _ => τ.helloOf ≠ some ip

/-! ## The list -/

/-- The neighbours are in strictly ascending order of addresses. -/
def NeighsAscending (s : Router) : Prop := (s.neighs.map Neigh.ip).Pairwise (· < ·)

namespace NeighsAscending

theorem sorted (h : NeighsAscending s) : NeighsSorted s := List.Pairwise.imp BitVec.le_of_lt h

theorem nodup (h : NeighsAscending s) : (s.neighs.map Neigh.ip).Nodup :=
  List.Pairwise.imp BitVec.ne_of_lt h

theorem eq_of_ip (h : NeighsAscending s) {n' : Neigh} (hn : n ∈ s.neighs) (hn' : n' ∈ s.neighs)
    (he : n.ip = n'.ip) : n = n' := List.inj_on_of_nodup_map h.nodup hn hn' he

theorem found (h : NeighsAscending s) (ip : U32) (n : Neigh) :
    findAodvNeigh ip s = some n ↔ n ∈ s.neighs ∧ n.ip = ip := by
  have hmem : ∀ {n'}, findAodvNeigh ip s = some n' → n' ∈ s.neighs ∧ n'.ip = ip := fun hf =>
    ⟨(List.takeWhile_sublist _).subset (List.mem_of_find?_eq_some hf), ip_of_findAodvNeigh hf⟩
  refine ⟨hmem, fun ⟨hn, hip⟩ => ?_⟩
  cases hf : findAodvNeigh ip s with
  | none =>
    have hl := listed_of_findAodvNeigh h.sorted hf
    have hin : listed ip s = true := listed_iff.2 (hip ▸ List.mem_map_of_mem hn)
    exact Bool.noConfusion (hl.symm.trans hin)
  | some n' =>
    obtain ⟨hn', hip'⟩ := hmem hf
    rw [h.eq_of_ip hn hn' (hip.trans hip'.symm)]

/-- A new neighbour goes to its place. -/
theorem create (h : NeighsAscending s) {dev : Option Dev} (hl : listed ip s = false)
    {ok : Bool} (hc : createAodvNeigh ok ip dev s = some (n, t)) : NeighsAscending t := by
  have hips := map_createAodvNeigh hc
  have hsorted : (t.neighs.map Neigh.ip).Pairwise (· ≤ ·) := hips ▸ h.sorted.orderedInsert _ _
  have hnodup : (t.neighs.map Neigh.ip).Nodup := by
    rw [hips, (List.perm_orderedInsert _ _ _).nodup_iff, List.nodup_cons]
    refine ⟨fun hin => ?_, h.nodup⟩
    exact Bool.noConfusion (hl.symm.trans (listed_iff.2 hin))
  exact (hsorted.and hnodup).imp fun hxy => BitVec.lt_of_le_ne hxy.1 hxy.2

/-- A neighbour that is taken off the list is on it no more. -/
theorem erase (h : NeighsAscending s) (ht : t.neighs = s.neighs.eraseP fun n => n.ip == ip) :
    NeighsAscending t ∧ listed ip t = false := by
  have hips : t.neighs.map Neigh.ip = (s.neighs.map Neigh.ip).erase ip := by
    rw [ht, List.erase_eq_eraseP', List.eraseP_map]
    rfl
  refine ⟨?_, Bool.eq_false_iff.2 fun hin => ?_⟩
  · rw [NeighsAscending, hips]
    exact List.Pairwise.sublist List.erase_sublist h
  · rw [listed_iff, hips] at hin
    exact h.nodup.not_mem_erase hin

end NeighsAscending

/-! ## What a handler leaves -/

/-- After the handler of `τ`, a listed neighbour has just been heard, and has a new time-out, or
it has been on the list before and has its old one; its time-out is not `τ`. -/
structure Handled (τ : Task) (s t : Router) : Prop where
  ascending : NeighsAscending t
  tasks : t.taskQ = s.taskQ
  listed : ∀ ip, listed ip t = true →
    τ.helloOf = some ip ∧ (∃ e ∈ t.timerQueue, e.TimesOut ip) ∨
      listed ip s = true ∧ ¬τ.TimesOut ip ∧ ∀ e ∈ s.timerQueue, e.TimesOut ip → e ∈ t.timerQueue

namespace Handled

theorem congr (h : Handled τ s t) {u : Router} (hu : chores u = chores t) : Handled τ s u := by
  obtain ⟨h₁, h₂, h₃⟩ := chores_iff.1 hu
  refine ⟨by rw [NeighsAscending, h₃]; exact h.ascending, h₂.trans h.tasks, fun ip hl => ?_⟩
  rw [h₁]
  rw [Aodv.listed, h₃] at hl
  exact h.listed ip hl

/-- A handler that leaves neighbours and time-outs alone. -/
theorem keep (h : NeighsAscending s) (hτ : τ.type ≠ .neighbor) (hneighs : t.neighs = s.neighs)
    (htasks : t.taskQ = s.taskQ)
    (htimers : ∀ e ∈ s.timerQueue, e.type = .neighbor → e ∈ t.timerQueue) : Handled τ s t where
  ascending := by rw [NeighsAscending, hneighs]; exact h
  tasks := htasks
  listed ip hl := by
    rw [Aodv.listed, hneighs] at hl
    exact .inr ⟨hl, fun he => hτ he.1, fun e he htype => htimers e he htype.1⟩

/-- A hello of the neighbour `n`, which is on the list by now. -/
theorem hello (h : NeighsAscending t) (hmem : mem .task 0 = true) (hτ : τ.helloOf = some n.ip)
    (htype : τ.type ≠ .neighbor) (htasks : t.taskQ = s.taskQ)
    (htimers : t.timerQueue = s.timerQueue)
    (hneighs : ∀ ip, Aodv.listed ip t = true → ip = n.ip ∨ Aodv.listed ip s = true) (m : Rrep) :
    Handled τ s (putNeigh (n.heard clk m) (restartTimer mem clk n.ip t)) where
  ascending := by
    rw [NeighsAscending, map_putNeigh, restartTimer, insertTimer, if_pos hmem]
    exact h
  tasks := taskQ_restartTimer.trans htasks
  listed ip hl := by
    have hlt : Aodv.listed ip t = true := by
      rw [listed_iff, map_putNeigh, restartTimer, insertTimer, if_pos hmem] at hl
      exact listed_iff.2 hl
    have hq : (putNeigh (n.heard clk m) (restartTimer mem clk n.ip t)).timerQueue =
        (queueTimer (timerTask clk .neighbor neighborTimeout n.ip)
          (deleteTimer n.ip .neighbor t)).timerQueue := by
      rw [putNeigh, restartTimer, insertTimer, if_pos hmem]
    rw [hq]
    by_cases hip : ip = n.ip
    · exact .inl ⟨hip ▸ hτ, _, mem_orderedInsert_timer.2 (.inl rfl), hip ▸ ⟨rfl, rfl, rfl⟩⟩
    · refine .inr ⟨(hneighs ip hlt).resolve_left hip, fun he => htype he.1, fun e he hout => ?_⟩
      refine mem_orderedInsert_timer.2 (.inr (List.mem_filter.2 ⟨htimers ▸ he, ?_⟩))
      simpa [Task.isFor, hout.1, hout.2.1] using hip

theorem greeted {m : Rrep} (h : NeighsAscending s) (hmem : mem .task 0 = true)
    (hτ : τ.type = .packet (.rrep m)) (hm : m.srcIp = m.dstIp) :
    Handled τ s (greeted mem clk τ m s) := by
  have hhello : τ.helloOf = some m.dstIp := by simp [Task.helloOf, hτ, hm]
  have htype : τ.type ≠ .neighbor := by simp [hτ]
  unfold Aodv.greeted
  split
  · rename_i n hf
    have hn : τ.helloOf = some n.ip := by rw [hhello, ip_of_findAodvNeigh hf]
    exact hello h hmem hn htype rfl rfl (fun _ hl => .inr hl) m
  · rename_i hf
    have hl := listed_of_findAodvNeigh h.sorted hf
    split
    · rename_i n s₁ hc
      have hips := map_createAodvNeigh hc
      obtain ⟨-, hn, -, hs₁⟩ := createAodvNeigh_some hc
      have hip : n.ip = m.dstIp := by rw [hn]
      refine hello (h.create hl hc) hmem (by rw [hhello, hip]) htype (by rw [hs₁]) (by rw [hs₁])
        (fun ip hl => ?_) m
      rw [listed_iff, hips, List.mem_orderedInsert] at hl
      exact hl.imp (fun h => h.trans hip.symm) listed_iff.2
    · exact keep h htype rfl rfl fun _ he _ => he

/-- The handler of any task, when its allocations succeed. -/
theorem scheduled (h : NeighsAscending s) (hmem : mem .task 0 = true) :
    Handled τ s (scheduled p mem clk τ s) := by
  unfold Aodv.scheduled
  split <;> rename_i hτ
  · split_ifs with hm
    · exact greeted h hmem hτ hm
    · refine keep h (by simp [hτ]) rfl rfl fun e he htype => List.mem_filter.2 ⟨he, ?_⟩
      simp [Task.isFor, htype]
    · exact keep h (by simp [hτ]) rfl rfl fun _ he _ => he
  · exact keep h (by simp [hτ]) rfl rfl fun _ he _ => he
  · exact keep h (by simp [hτ]) rfl rfl fun _ he _ => he
  · rw [hmem]
    exact keep h (by simp [hτ]) rfl rfl fun e he _ => mem_orderedInsert_timer.2 (.inr he)
  · rw [hmem]
    split_ifs
    · exact keep h (by simp [hτ]) rfl rfl fun e he _ => mem_orderedInsert_timer.2 (.inr he)
    · exact keep h (by simp [hτ]) rfl rfl fun _ he _ => he
  · split_ifs with hl
    · obtain ⟨hasc, hgone⟩ := h.erase (t := deleteTimer τ.srcIp .neighbor
        { s with neighs := s.neighs.eraseP fun n => n.ip == τ.srcIp }) rfl
      refine ⟨hasc, rfl, fun ip hin => .inr ?_⟩
      have hne : ip ≠ τ.srcIp := by
        rintro rfl
        exact Bool.noConfusion (hgone.symm.trans hin)
      refine ⟨?_, fun hout => hne hout.2.2.symm, fun e he hout => List.mem_filter.2 ⟨he, ?_⟩⟩
      · exact listed_iff.2 ((List.eraseP_sublist.map _).subset (listed_iff.1 hin))
      · simpa [Task.isFor, hout.1, hout.2.1] using hne
    · refine ⟨h, rfl, fun ip hin => .inr ⟨hin, fun hout => hl ?_, fun _ he _ => he⟩⟩
      rw [hout.2.2]
      exact hin
  · refine keep h (by simp [hτ]) ?_ taskQ_insertRreqTimer fun e he _ =>
      mem_insertRreqTimer_of_mem he
    unfold insertRreqTimer
    split <;> rfl

theorem handle (h : NeighsAscending s) (hmem : mem.Succeeds) (hh : handle p mem clk τ s = some t) :
    Handled τ s t := (scheduled h (hmem .task 0)).congr (chores_handle hh)

end Handled

/-! ## Steps -/

theorem NeighsAscending.step {e : Event} (h : NeighsAscending s) (hmem : e.Succeeds)
    (hs : step p e s = some t) : NeighsAscending t := by
  cases e with
  | packet mem clk a =>
    obtain ⟨n, q, rfl, -⟩ := packetIn_cases (Option.some.inj hs)
    exact h
  | output mem clk daddr =>
    obtain rfl : output p mem clk daddr s = t := Option.some.inj hs
    rw [NeighsAscending, keepsTimeouts_output.neighs]
    exact h
  | timer clk =>
    obtain rfl : timerQueueSignal clk s = t := Option.some.inj hs
    exact h
  | thread mem clk =>
    rcases runTask_cases hs with ⟨-, rfl⟩ | ⟨τ, -, -, hh⟩
    · exact h
    · have hd : Handled τ { s with taskQ := s.taskQ.tail } t := .handle h hmem hh
      exact hd.ascending

/-- After a step, a listed neighbour has just been heard, and has a time-out, or it has been on
the list before and has kept its time-outs. -/
theorem listed_step {e : Event} (h : NeighsAscending s) (hmem : e.Succeeds)
    (hs : step p e s = some t) (hl : listed ip t = true) :
    ¬e.Unheard ip s ∧ (∃ τ ∈ t.timerQueue ++ t.taskQ, τ.TimesOut ip) ∨
      listed ip s = true ∧ ∀ τ ∈ s.timerQueue ++ s.taskQ, τ.TimesOut ip →
      τ ∈ t.timerQueue ++ t.taskQ := by
  cases e with
  | packet mem clk a =>
    obtain ⟨n, q, rfl, -⟩ := packetIn_cases (Option.some.inj hs)
    refine .inr ⟨hl, fun τ hτ _ => ?_⟩
    rw [← List.append_assoc]
    exact List.mem_append_left q hτ
  | output mem clk daddr =>
    obtain rfl : output p mem clk daddr s = t := Option.some.inj hs
    have hchores : chores (output p mem clk daddr s) = _ := chores_output daddr
    obtain ⟨htimers, htasks, -⟩ := chores_iff.1 hchores
    rw [listed, keepsTimeouts_output.neighs] at hl
    refine .inr ⟨hl, fun τ hτ _ => ?_⟩
    rw [htimers, htasks, taskQ_insertRreqTimer]
    exact (List.mem_append.1 hτ).elim
      (fun h => List.mem_append_left _ (mem_insertRreqTimer_of_mem h))
      (List.mem_append_right _)
  | timer clk =>
    obtain rfl : timerQueueSignal clk s = t := Option.some.inj hs
    exact .inr ⟨hl, fun τ hτ _ => timerQueueSignal_mem.2 hτ⟩
  | thread mem clk =>
    rcases runTask_cases hs with ⟨-, rfl⟩ | ⟨τ, hhead, hq, hh⟩
    · exact .inr ⟨hl, fun _ hτ _ => hτ⟩
    · have hd : Handled τ { s with taskQ := s.taskQ.tail } t := .handle h hmem hh
      rcases hd.listed ip hl with ⟨hhello, e, he, hout⟩ | ⟨hl, hne, hkeep⟩
      · exact .inl ⟨fun hun => hun τ hhead hhello, e, List.mem_append_left _ he, hout⟩
      · refine .inr ⟨hl, fun e he hout => ?_⟩
        rw [hq] at he
        rw [hd.tasks]
        rcases List.mem_append.1 he with he | he
        · exact List.mem_append_left _ (hkeep e he hout)
        · rcases List.mem_cons.1 he with rfl | he
          · exact absurd hout hne
          · exact List.mem_append_right _ he

/-- What every step keeps: the order of the list, and a time-out for each neighbour. -/
structure TimeoutsKept (s : Router) : Prop where
  ascending : NeighsAscending s
  watched : ∀ ip, listed ip s = true → ∃ τ ∈ s.timerQueue ++ s.taskQ, τ.TimesOut ip

namespace TimeoutsKept

theorem neighsWatched (h : TimeoutsKept s) : NeighsWatched s where
  ascending := h.ascending
  found := h.ascending.found
  watched n hn := h.watched n.ip (listed_iff.2 (List.mem_map_of_mem hn))

theorem step {e : Event} (h : TimeoutsKept s) (hmem : e.Succeeds) (hs : step p e s = some t) :
    TimeoutsKept t where
  ascending := h.ascending.step hmem hs
  watched ip hl := by
    rcases listed_step h.ascending hmem hs hl with ⟨-, hτ⟩ | ⟨hl, hkeep⟩
    · exact hτ
    · obtain ⟨τ, hτ, hout⟩ := h.watched ip hl
      exact ⟨τ, hkeep τ hτ hout, hout⟩

theorem start (h : initModule p clk = some s) : TimeoutsKept s := by
  rw [initModule_eq] at h
  rw [← Option.some.inj h]
  exact ⟨List.Pairwise.nil, fun ip hl => Bool.noConfusion hl⟩

end TimeoutsKept

/-! ## Runs -/

/-- Without another hello, a neighbour is on the list only as long
as its time-out has not been handled. -/
theorem listed_while_waiting {events : List Event} (h : NeighsAscending s)
    (hτ : τ ∈ s.timerQueue ++ s.taskQ) (hout : τ.TimesOut ip) (hmem : ∀ e ∈ events, e.Succeeds)
    (hun : AllSteps (step p) (Event.Unheard ip) events s) :
    Along (step p) (fun t => listed ip t = true → τ ∈ t.timerQueue ++ t.taskQ) events s := by
  have hinv : Along (step p) (fun t => NeighsAscending t ∧
      (listed ip t = true → τ ∈ t.timerQueue ++ t.taskQ))
      events s := by
    refine along_of_step (fun e s t ⟨hasc, hwait⟩ ⟨hun, hmem⟩ hs =>
      ⟨hasc.step hmem hs, fun hl => ?_⟩)
      ⟨h, fun _ => hτ⟩ (hun.and (allSteps_of_mem hmem s))
    rcases listed_step hasc hmem hs hl with ⟨hheard, -⟩ | ⟨hl, hkeep⟩
    · exact absurd hun hheard
    · exact hkeep τ (hwait hl) hout
  exact hinv.mono fun _ h => h.2

/-- In every run without a shortage of memory the neighbours are watched, and a neighbour whose
hellos have stopped is on the list only as long as its time-out has not been handled. -/
theorem neighs_watched {events : List Event} (h₀ : initModule p clk = some s)
    (hmem : ∀ e ∈ events, e.Succeeds) :
    Along (step p) (fun t => NeighsWatched t ∧
      ∀ ip, ∀ τ ∈ t.timerQueue ++ t.taskQ, τ.TimesOut ip →
      ∀ later : List Event, (∀ e ∈ later, e.Succeeds) →
        AllSteps (step p) (Event.Unheard ip) later t →
          Along (step p) (fun u => listed ip u = true → τ ∈ u.timerQueue ++ u.taskQ) later t)
            events s :=
  (along_of_step (fun _ _ _ h hmem hs => TimeoutsKept.step h hmem hs) (TimeoutsKept.start h₀)
    (allSteps_of_mem hmem s)).mono fun _ h => ⟨h.neighsWatched, fun _ _ hτ hout _ hmem hun =>
      listed_while_waiting h.ascending hτ hout hmem hun⟩

/-- Node 2 has been heard, and its time-out has come. -/
theorem neighs_watched_greeting : ∃ s, initModule plainNode (clockAt 0) = some s ∧
    Along (step plainNode) (fun t => NeighsWatched t ∧
      ∀ ip, ∀ τ ∈ t.timerQueue ++ t.taskQ, τ.TimesOut ip →
      ∀ later : List Event, (∀ e ∈ later, e.Succeeds) →
        AllSteps (step plainNode) (Event.Unheard ip) later t →
          Along (step plainNode) (fun u => listed ip u = true →
          τ ∈ u.timerQueue ++ u.taskQ) later t)
      (handled 1 (helloFrom (peer 2) 1) ++ [.timer (clockAt 3101)]) s := by
  obtain ⟨s, hs⟩ : ∃ s, initModule plainNode (clockAt 0) = some s := ⟨_, initModule_eq _ _⟩
  refine ⟨s, hs, neighs_watched hs fun e he => ?_⟩
  simp only [handled, List.cons_append, List.nil_append, List.mem_cons,
    List.not_mem_nil, or_false] at he
  rcases he with rfl | rfl | rfl
  · exact Mem.plenty_succeeds
  · exact Mem.plenty_succeeds
  · trivial

end MobileCloudCaching.Aodv
