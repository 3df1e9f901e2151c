import MobileCloudCaching.Aodv.Retries
import Mathlib.Data.List.TakeWhile
import Mathlib.Logic.Function.Basic

/-!
# The time-outs of neighbours

A hello cancels the time-out of its sender and sets a new one.  `delete_timer` looks for the old one
on the timer queue only: a time-out that `timer_queue_signal` has made a task already is carried
out, however late the neighbour has been heard.
-/

namespace MobileCloudCaching.Aodv

open Transition

variable {p : Params} {mem : Mem} {clk : Clock} {s t u : Router} {τ : Task} {ip : U32}

/-- `ip` is on the list of neighbours. -/
def listed (ip : U32) (s : Router) : Bool := s.neighs.any fun n => n.ip == ip

/-- The sender of the hello in a task. -/
def Task.helloOf (τ : Task) : Option U32 :=
  match τ.type with
  | .packet (.rrep m) => if m.srcIp = m.dstIp then some m.dstIp else none
  | _ => none

/-! ## Handlers that leave the time-outs alone -/

/-- The neighbours and the tasks are kept, and a time-out on the timer queue was there before. -/
structure KeepsTimeouts (s t : Router) : Prop where
  neighs : t.neighs = s.neighs
  tasks : t.taskQ = s.taskQ
  timers : ∀ τ ∈ t.timerQueue, τ.type = .neighbor → τ ∈ s.timerQueue

theorem KeepsTimeouts.refl (s : Router) : KeepsTimeouts s s := ⟨rfl, rfl, fun _ h _ => h⟩

theorem KeepsTimeouts.trans (h₁ : KeepsTimeouts s t) (h₂ : KeepsTimeouts t u) : KeepsTimeouts s u :=
  ⟨h₂.neighs.trans h₁.neighs, h₂.tasks.trans h₁.tasks,
    fun τ hτ htype => h₁.timers τ (h₂.timers τ hτ htype) htype⟩

theorem keepsTimeouts_of_agenda (h : agenda t = agenda s) : KeepsTimeouts s t := by
  obtain ⟨h₁, h₂, h₃, -⟩ := agenda_iff.1 h
  exact ⟨h₃, h₂, fun τ hτ _ => h₁ ▸ hτ⟩

theorem keepsTimeouts_insertTimer {ok : Bool} {type : TaskType} (delay : ℕ) (ip : U32)
    (h : type ≠ .neighbor) : KeepsTimeouts s (insertTimer ok clk type delay ip s) := by
  refine ⟨by unfold insertTimer; split <;> rfl, by unfold insertTimer; split <;> rfl,
    fun τ hτ htype => ?_⟩
  rcases mem_insertTimer hτ with rfl | hτ
  · exact absurd htype h
  · exact hτ

theorem keepsTimeouts_broadcastRreq {srcIp dstIp : U32} {n : ℕ} :
    KeepsTimeouts s (broadcastRreq mem clk srcIp dstIp n s) := by
  have hagenda : agenda (broadcastRreq mem clk srcIp dstIp n s) = _ := agenda_broadcastRreq
  obtain ⟨h₁, h₂, h₃, -⟩ := agenda_iff.1 hagenda
  refine ⟨h₃.trans ?_, h₂.trans ?_, fun τ hτ htype => ?_⟩
  · unfold insertRreqTimer; split <;> rfl
  · unfold insertRreqTimer; split <;> rfl
  · rw [h₁] at hτ
    rcases mem_insertRreqTimer hτ with rfl | hτ
    · exact TaskType.noConfusion htype
    · exact hτ

theorem keepsTimeouts_flush (h : flushAodvRouteTable clk s = some t) : KeepsTimeouts s t :=
  keepsTimeouts_of_agenda (agenda_flushRoutes h)

theorem keepsTimeouts_ipqSendIp (ip : U32) : KeepsTimeouts s (ipqSendIp ip s) :=
  ⟨rfl, rfl, fun _ h _ => h⟩

theorem keepsTimeouts_recvRrep {m : Rrep} (hne : m.srcIp ≠ m.dstIp)
    (h : recvRrep p mem clk τ m s = some t) :
    KeepsTimeouts s t := by
  rcases recvRrep_cases h with ⟨he, -⟩ | ⟨-, ⟨-, rfl⟩ | ⟨-, s₁, rfl, hu⟩⟩
  · exact absurd he hne
  · exact .refl _
  · have hdelete : KeepsTimeouts s (deleteTimer m.dstIp .resendRreq s) :=
      ⟨rfl, rfl, fun τ hτ _ => (List.mem_filter.1 hτ).1⟩
    have hupdate : KeepsTimeouts (deleteTimer m.dstIp .resendRreq s) s₁ := by
      rcases agenda_updateAodvRoute_or hu with h | h
      · exact keepsTimeouts_of_agenda h
      · exact (keepsTimeouts_ipqSendIp _).trans (keepsTimeouts_of_agenda h)
    exact (hdelete.trans hupdate).trans (keepsTimeouts_of_agenda agenda_forwardRrep)

/-- Only hellos and time-outs touch neighbours and their time-outs. -/
theorem handle_keepsTimeouts (hτ : τ.type ≠ .neighbor) (hhello : τ.helloOf = none)
    (h : handle p mem clk τ s = some t) : KeepsTimeouts s t := by
  unfold handle at h
  split at h
  · rcases agenda_recvRreq h with h | h
    · exact keepsTimeouts_of_agenda h
    · exact (keepsTimeouts_ipqSendIp _).trans (keepsTimeouts_of_agenda h)
  · rename_i m htype
    refine keepsTimeouts_recvRrep (fun he => ?_) h
    simp [Task.helloOf, htype, he] at hhello
  · exact keepsTimeouts_of_agenda (agenda_recvRerr h)
  · rw [← Option.some.inj h]
    exact .refl s
  · have hids : KeepsTimeouts s
        { s with floodIdQueue := s.floodIdQueue.filter fun e => !timeBefore e.lifetime clk.now } :=
      ⟨rfl, rfl, fun _ h _ => h⟩
    have hflood : KeepsTimeouts s (flushFloodIdQueue p mem clk s) :=
      hids.trans (keepsTimeouts_insertTimer _ _ (by decide))
    exact hflood.trans (keepsTimeouts_flush h)
  · unfold sendHello at h
    split at h
    · obtain ⟨r, -, h⟩ := Option.bind_eq_some_iff.1 h
      rw [← Option.some.inj h]
      exact (keepsTimeouts_of_agenda (agenda_localBroadcast _ _)).trans
        (keepsTimeouts_insertTimer _ _ (by decide))
    · rw [← Option.some.inj h]
      exact .refl s
  · exact absurd ‹_› hτ
  · exact keepsTimeouts_flush h
  · rw [← Option.some.inj h]
    unfold resendRreq
    split
    · exact ⟨rfl, rfl, fun _ h _ => h⟩
    · split
      · exact keepsTimeouts_broadcastRreq
      · exact .refl s

theorem keepsTimeouts_output {daddr : U32} : KeepsTimeouts s (output p mem clk daddr s) := by
  cases hu : unrouted p clk daddr s with
  | false => exact keepsTimeouts_of_agenda (agenda_output_of_routed hu)
  | true =>
    have hgen : KeepsTimeouts s (genRreq mem clk p.myIp daddr (searched clk daddr s)) := by
      have hsearch : KeepsTimeouts s (searched clk daddr s) := keepsTimeouts_of_agenda rfl
      unfold genRreq
      split
      · exact hsearch
      · split
        · exact hsearch.trans keepsTimeouts_broadcastRreq
        · exact hsearch
    rw [output_of_unrouted hu]
    exact ⟨hgen.neighs, hgen.tasks, hgen.timers⟩

/-! ## The list of neighbours -/

/-- The neighbours are in ascending order of addresses. -/
def NeighsSorted (s : Router) : Prop := (s.neighs.map Neigh.ip).Pairwise (· ≤ ·)

theorem listed_iff : listed ip s = true ↔ ip ∈ s.neighs.map Neigh.ip := by
  rw [listed, List.any_eq_true, List.mem_map]
  exact exists_congr fun n => and_congr_right fun _ => beq_iff_eq

/-- In an ordered list the search finds every neighbour. -/
theorem listed_of_findAodvNeigh (h : NeighsSorted s) (hf : findAodvNeigh ip s = none) :
    listed ip s = false := by
  rw [Bool.eq_false_iff, Ne, listed, List.any_eq_true]
  rintro ⟨n, hn, hip⟩
  obtain ⟨l₁, l₂, hl⟩ := List.append_of_mem hn
  have hle : ∀ x ∈ l₁, decide (x.ip ≤ ip) = true := by
    rw [NeighsSorted, hl, List.map_append, List.pairwise_append] at h
    intro x hx
    have hxn := h.2.2 x.ip (List.mem_map_of_mem hx) n.ip (by simp)
    rw [eq_of_beq hip] at hxn
    exact decide_eq_true hxn
  have hmem : n ∈ s.neighs.takeWhile fun x => decide (x.ip ≤ ip) := by
    rw [hl, List.takeWhile_append_of_pos hle, List.takeWhile_cons_of_pos (by simp [eq_of_beq hip])]
    simp
  exact List.find?_eq_none.1 hf n hmem hip

theorem map_createAodvNeigh {ok : Bool} {dev : Option Dev} {n : Neigh}
    (h : createAodvNeigh ok ip dev s = some (n, t)) :
    t.neighs.map Neigh.ip = (s.neighs.map Neigh.ip).orderedInsert (· ≤ ·) ip := by
  obtain ⟨-, rfl, -, rfl⟩ := createAodvNeigh_some h
  rw [List.orderedInsert_eq_take_drop, List.takeWhile_map, List.dropWhile_map, List.map_append]
  simp only [BitVec.not_le, Function.comp_def, List.map_cons]

theorem map_putNeigh (n : Neigh) : (putNeigh n s).neighs.map Neigh.ip = s.neighs.map Neigh.ip := by
  rw [putNeigh, List.map_map]
  refine List.map_congr_left fun x _ => ?_
  rw [Function.comp_apply]
  split
  · exact (‹x.ip = n.ip›).symm
  · rfl

/-- The sender of a hello is a neighbour, or can be entered as one. -/
def entered (mem : Mem) (τ : Task) (ip : U32) (s : Router) : Bool :=
  (findAodvNeigh ip s).isSome || (createAodvNeigh (mem .neigh 0) ip τ.dev s).isSome

theorem entered_congr (h : t.neighs = s.neighs) : entered mem τ ip t = entered mem τ ip s := by
  rw [entered, isSome_createAodvNeigh h, findAodvNeigh, h]
  rfl

/-- What a hello of `ip` does to the neighbours and their time-outs. -/
structure Restarted (clk : Clock) (ip : U32) (s t : Router) : Prop where
  sorted : NeighsSorted t
  tasks : t.taskQ = s.taskQ
  neighs : ∀ ip', listed ip' t = true → listed ip' s = true ∨ ip' = ip
  timers : ∀ τ ∈ t.timerQueue, τ.type = .neighbor →
    τ = timerTask clk .neighbor neighborTimeout ip ∨ τ ∈ s.timerQueue ∧ τ.id ≠ ip

theorem restarted_heardHello {m : Rrep} {n : Neigh} (hs : NeighsSorted s)
    (h : heardHello mem clk m n s = some t) : Restarted clk n.ip s t := by
  obtain ⟨h₁, h₂, h₃, -⟩ := agenda_iff.1 (agenda_heardHello h)
  have hips : t.neighs.map Neigh.ip = s.neighs.map Neigh.ip := by
    rw [h₃, map_putNeigh, restartTimer, insertTimer]
    split <;> rfl
  refine ⟨?_, ?_, fun ip' hip => ?_, fun τ hτ htype => ?_⟩
  · rw [NeighsSorted, hips]
    exact hs
  · rw [h₂, putNeigh, restartTimer, insertTimer]
    split <;> rfl
  · exact .inl (listed_iff.2 (hips ▸ listed_iff.1 hip))
  · rw [h₁] at hτ
    rcases mem_insertTimer hτ with rfl | hτ
    · exact .inl rfl
    · obtain ⟨hτ, hfor⟩ := List.mem_filter.1 hτ
      exact .inr ⟨hτ, by simpa [Task.isFor, htype] using hfor⟩

theorem recvHello_restarted {m : Rrep} (hs : NeighsSorted s)
    (h : recvHello mem clk τ m s = some t) :
    listed m.dstIp s = false ∧ t = s ∨ entered mem τ m.dstIp s = true ∧
    Restarted clk m.dstIp s t := by
  rcases recvHello_cases h with ⟨hf, -, rfl⟩ | ⟨n, s₁, hn, hh, ⟨hf, rfl⟩ | ⟨hf, hc⟩⟩
  · exact .inl ⟨listed_of_findAodvNeigh hs hf, rfl⟩
  · exact .inr ⟨by simp [entered, hf], hn ▸ restarted_heardHello hs hh⟩
  · have hips := map_createAodvNeigh hc
    have hs₁ : NeighsSorted s₁ := by
      rw [NeighsSorted, hips]
      exact hs.orderedInsert _ _
    have hr := restarted_heardHello hs₁ hh
    rw [hn] at hr
    have heq := (createAodvNeigh_some hc).2.2.2
    refine .inr ⟨by simp [entered, hc], hr.sorted, hr.tasks.trans (by rw [heq]),
      fun ip' hip => ?_, ?_⟩
    · rcases hr.neighs ip' hip with hip | rfl
      · rw [listed_iff, hips, List.mem_orderedInsert] at hip
        exact hip.symm.imp_left listed_iff.2
      · exact .inr rfl
    · rw [heq] at hr
      exact hr.timers

/-! ## When a neighbour was heard -/

/-- The module, the time of its last step, and when `recv_hello` has last run for each address. -/
structure Watch where
  router : Router
  now : ℕ
  heard : U32 → Option ℕ

namespace Watch

/-- The times after an event. -/
def heardAfter (e : Event) (w : Watch) : U32 → Option ℕ :=
  match e with
  | .thread _ clk =>
    match w.router.taskQ.head?.bind Task.helloOf with
    | some ip => Function.update w.heard ip (some clk.now)
    | none => w.heard
  | _ => w.heard

/-- The clock does not go back. -/
def step (p : Params) (e : Event) (w : Watch) : Option Watch :=
  if w.now ≤ e.clk.now then
    (Aodv.step p e w.router).map fun s => { router := s, now := e.clk.now, heard := heardAfter e w }
  else none

/-- What `init_module` leaves. -/
def start (p : Params) (clk : Clock) : Option Watch :=
  (initModule p clk).map fun s => { router := s, now := clk.now, heard := fun _ => none }

/-- When a step runs `delete_aodv_neigh` for a listed neighbour, it has not been
heard for as long as a time-out takes. -/
def SilentBeforeDrop (p : Params) (e : Event) (w : Watch) : Prop :=
  ∀ w' ∈ step p e w, NextTask (fun _ clk τ s => τ.type = .neighbor → listed τ.srcIp s = true →
    ∀ h ∈ w.heard τ.srcIp, h + neighborTimeout ≤ clk.now) e w.router

end Watch

/-- When a hello enters or renews a neighbour, the old time-out is not on the task queue. -/
def Task.FindsTimeout (mem : Mem) (_ : Clock) (τ : Task) (s : Router) : Prop :=
  ∀ ip ∈ τ.helloOf, entered mem τ ip s = true → ∀ e ∈ s.taskQ, e.type = .neighbor → e.srcIp ≠ ip

-- not the instance for all addresses, which would try them one by one
instance (mem : Mem) (clk : Clock) (τ : Task) (s : Router) : Decidable (τ.FindsTimeout mem clk s) :=
  Option.decidableForallMem τ.helloOf

/-! ## The invariant -/

namespace Watch

variable {w w' : Watch}

/-- A time-out of a listed neighbour is not earlier than its last hello allows. -/
structure Inv (w : Watch) : Prop where
  sorted : NeighsSorted w.router
  own : ∀ τ ∈ w.router.timerQueue, τ.type = .neighbor →
    τ.id = τ.srcIp ∧ τ.time ≤ w.now + neighborTimeout
  timers : ∀ τ ∈ w.router.timerQueue, τ.type = .neighbor → listed τ.srcIp w.router = true →
    ∀ h ∈ w.heard τ.srcIp, h + neighborTimeout ≤ τ.time
  tasks : ∀ τ ∈ w.router.taskQ, τ.type = .neighbor → listed τ.srcIp w.router = true →
    ∀ h ∈ w.heard τ.srcIp, h + neighborTimeout ≤ w.now

namespace Inv

/-- What happens without a hello: time-outs that are due may become tasks. -/
theorem frame (h : Inv w) {t : Router} {now : ℕ} (hnow : w.now ≤ now) (hsorted : NeighsSorted t)
    (hlisted : ∀ ip, listed ip t = true → listed ip w.router = true)
    (htimers : ∀ τ ∈ t.timerQueue, τ.type = .neighbor → τ ∈ w.router.timerQueue)
    (htasks : ∀ τ ∈ t.taskQ, τ.type = .neighbor →
      τ ∈ w.router.taskQ ∨ τ ∈ w.router.timerQueue ∧ τ.time ≤ now) :
    Inv { router := t, now := now, heard := w.heard } where
  sorted := hsorted
  own τ hτ htype := by
    obtain ⟨hid, htime⟩ := h.own τ (htimers τ hτ htype) htype
    exact ⟨hid, htime.trans (Nat.add_le_add_right hnow _)⟩
  timers τ hτ htype hl := h.timers τ (htimers τ hτ htype) htype (hlisted _ hl)
  tasks τ hτ htype hl h₀ hh := by
    rcases htasks τ hτ htype with hmem | ⟨hmem, hdue⟩
    · exact (h.tasks τ hmem htype (hlisted _ hl) h₀ hh).trans hnow
    · exact (h.timers τ hmem htype (hlisted _ hl) h₀ hh).trans hdue

theorem keeps (h : Inv w) {t : Router} {now : ℕ} (hnow : w.now ≤ now)
    (hk : KeepsTimeouts w.router t) :
    Inv { router := t, now := now, heard := w.heard } :=
  h.frame hnow (by rw [NeighsSorted, hk.neighs]; exact h.sorted)
    (fun _ hl => by rwa [listed, hk.neighs] at hl) hk.timers fun _ hτ _ => .inl (hk.tasks ▸ hτ)

theorem timer (h : Inv w) (hnow : w.now ≤ clk.now) :
    Inv { router := timerQueueSignal clk w.router, now := clk.now, heard := w.heard } := by
  refine h.frame hnow h.sorted (fun _ hl => hl)
    (fun τ hτ _ => (List.dropWhile_sublist _).subset hτ) fun τ hτ htype => ?_
  rcases List.mem_append.1 hτ with hτ | hτ
  · exact .inl hτ
  · have hmem := (List.takeWhile_sublist _).subset hτ
    have hdue := List.mem_takeWhile_imp hτ
    have htime := (h.own τ hmem htype).2
    refine .inr ⟨hmem, le_of_timeBeforeEq hdue ?_⟩
    have hsmall : neighborTimeout < 2 ^ 31 := by decide
    omega

/-- A hello that finds its time-out. -/
theorem hello (h : Inv w) {t : Router} {now : ℕ} (hclk : clk.now = now) (hnow : w.now ≤ now)
    (hr : Restarted clk ip w.router t)
    (hok : ∀ τ ∈ w.router.taskQ, τ.type = .neighbor → τ.srcIp ≠ ip) :
    Inv { router := t, now := now, heard := Function.update w.heard ip (some now) } where
  sorted := hr.sorted
  own τ hτ htype := by
    rcases hr.timers τ hτ htype with rfl | ⟨hmem, -⟩
    · exact ⟨rfl, (congrArg (· + neighborTimeout) hclk).le⟩
    · obtain ⟨hid, htime⟩ := h.own τ hmem htype
      exact ⟨hid, htime.trans (Nat.add_le_add_right hnow _)⟩
  timers τ hτ htype hl h₀ hh := by
    rcases hr.timers τ hτ htype with rfl | ⟨hmem, hid⟩
    · have hnow : some now = some h₀ := by simpa [timerTask] using hh
      rw [← Option.some.inj hnow, ← hclk]
      exact le_rfl
    · have hne : τ.srcIp ≠ ip := (h.own τ hmem htype).1 ▸ hid
      simp only [Function.update_of_ne hne] at hh
      exact h.timers τ hmem htype ((hr.neighs _ hl).resolve_right hne) h₀ hh
  tasks τ hτ htype hl h₀ hh := by
    have hmem : τ ∈ w.router.taskQ := hr.tasks ▸ hτ
    have hne := hok τ hmem htype
    simp only [Function.update_of_ne hne] at hh
    exact (h.tasks τ hmem htype ((hr.neighs _ hl).resolve_right hne) h₀ hh).trans hnow

/-- The thread runs a handler. -/
theorem thread (h : Inv w) {t : Router} (hnow : w.now ≤ clk.now)
    (hok : τ.FindsTimeout mem clk { w.router with taskQ := w.router.taskQ.tail })
    (hh : handle p mem clk τ { w.router with taskQ := w.router.taskQ.tail } = some t) :
    Inv { router := t, now := clk.now, heard := match τ.helloOf with
      | some ip => Function.update w.heard ip (some clk.now)
      | none => w.heard } := by
  have hpop : Inv { w with router := { w.router with taskQ := w.router.taskQ.tail } } :=
    h.frame le_rfl h.sorted (fun _ hl => hl) (fun _ hτ _ => hτ) fun _ hτ _ =>
      .inl (List.mem_of_mem_tail hτ)
  generalize hs : { w.router with taskQ := w.router.taskQ.tail } = s at hok hh hpop
  cases hello : τ.helloOf with
  | some ip =>
    obtain ⟨m, htype, hm, rfl⟩ : ∃ m, τ.type = .packet (.rrep m) ∧ m.srcIp = m.dstIp ∧
        m.dstIp = ip := by
      unfold Task.helloOf at hello
      split at hello
      · obtain ⟨hm, he⟩ := Option.ite_none_right_eq_some.1 hello
        exact ⟨_, ‹_›, hm, Option.some.inj he⟩
      · cases hello
    rw [handle, htype] at hh
    rcases recvRrep_cases hh with ⟨-, hr⟩ | ⟨hne, -⟩
    · have hsame : KeepsTimeouts s { s with overhead := s.overhead - 1 } :=
        ⟨rfl, rfl, fun _ h _ => h⟩
      rcases recvHello_restarted (by exact hpop.sorted) hr with ⟨hl, rfl⟩ | ⟨hin, hr⟩
      · -- the sender could not be entered
        have hk := hpop.keeps hnow hsame
        have hne : ∀ {τ : Task}, listed τ.srcIp s = true → τ.srcIp ≠ m.dstIp := fun hτ he =>
          Bool.noConfusion ((he ▸ hτ).symm.trans hl)
        refine ⟨hk.sorted, hk.own, fun τ hτ htype hl h₀ hh => ?_, fun τ hτ htype hl h₀ hh => ?_⟩
        · simp only [Function.update_of_ne (hne hl)] at hh
          exact hk.timers τ hτ htype hl h₀ hh
        · simp only [Function.update_of_ne (hne hl)] at hh
          exact hk.tasks τ hτ htype hl h₀ hh
      · have hk := hpop.keeps le_rfl hsame
        have hentered : entered mem τ m.dstIp { s with overhead := s.overhead - 1 } =
          entered mem τ m.dstIp s := entered_congr rfl
        rw [hentered] at hin
        exact hk.hello rfl hnow hr (hok m.dstIp hello hin)
    · exact absurd hm hne
  | none =>
    by_cases htype : τ.type = .neighbor
    · rw [handle, htype] at hh
      cases hn : s.neighs.any fun n => n.ip == τ.srcIp with
      | false => exact deleteAodvNeigh_of_not_listed hn hh ▸ hpop.keeps hnow (.refl _)
      | true =>
        obtain ⟨h₁, h₂, h₃, -⟩ := agenda_iff.1 (agenda_deleteAodvNeigh hn hh)
        have hsub : (t.neighs.map Neigh.ip).Sublist (s.neighs.map Neigh.ip) := by
          rw [h₃]
          exact List.eraseP_sublist.map _
        refine hpop.frame hnow (hpop.sorted.sublist hsub)
          (fun _ hl => listed_iff.2 (hsub.subset (listed_iff.1 hl))) (fun τ hτ _ => ?_)
            fun τ hτ _ => ?_
        · rw [h₁] at hτ
          exact (List.mem_filter.1 hτ).1
        · rw [h₂] at hτ
          exact .inl hτ
    · exact hpop.keeps hnow (handle_keepsTimeouts htype hello hh)

theorem step {e : Event} (h : Inv w) (hok : NextTask Task.FindsTimeout e w.router)
    (hs : Watch.step p e w = some w') : Inv w' := by
  obtain ⟨hnow, hs⟩ := Option.ite_none_right_eq_some.1 hs
  obtain ⟨t, ht, rfl⟩ := Option.map_eq_some_iff.1 hs
  cases e with
  | packet mem clk a =>
    obtain ⟨n, q, rfl, hq⟩ := packetIn_cases (Option.some.inj ht)
    refine h.frame hnow h.sorted (fun _ hl => hl) (fun _ hτ _ => hτ) fun τ hτ htype => ?_
    rcases List.mem_append.1 hτ with hτ | hτ
    · exact .inl hτ
    · rcases hq with rfl | rfl
      · exact absurd hτ List.not_mem_nil
      · rw [List.mem_singleton.1 hτ] at htype
        exact TaskType.noConfusion htype
  | output mem clk daddr =>
    obtain rfl : output p mem clk daddr w.router = t := Option.some.inj ht
    exact h.keeps hnow keepsTimeouts_output
  | timer clk =>
    obtain rfl : timerQueueSignal clk w.router = t := Option.some.inj ht
    exact h.timer hnow
  | thread mem clk =>
    rcases runTask_cases ht with ⟨hq, rfl⟩ | ⟨τ, hhead, -, hh⟩
    · have hsame : heardAfter (.thread mem clk) w = w.heard := by
        rw [heardAfter, hq]
        rfl
      rw [hsame]
      exact h.keeps hnow (.refl _)
    · have hheard : heardAfter (.thread mem clk) w = match τ.helloOf with
          | some ip => Function.update w.heard ip (some clk.now)
          | none => w.heard := by
        rw [heardAfter, hhead]
        rfl
      rw [hheard]
      exact h.thread hnow (hok τ hhead) hh

theorem silent {e : Event} (h : Inv w) : SilentBeforeDrop p e w := by
  intro w' hs
  have hnow := (Option.ite_none_right_eq_some.1 hs).1
  cases e with
  | thread mem clk =>
    intro τ hhead htype hl h₀ hh
    have hmem : τ ∈ w.router.taskQ := List.mem_of_mem_head? hhead
    exact (h.tasks τ hmem htype hl h₀ hh).trans hnow
  | packet _ _ _ | output _ _ _ | timer _ => trivial

theorem start (h : Watch.start p clk = some w) : Inv w := by
  obtain ⟨s, hs, rfl⟩ := Option.map_eq_some_iff.1 h
  obtain ⟨-, htasks, htimers⟩ := initModule_agenda hs
  have hno : ∀ τ ∈ s.timerQueue, τ.type ≠ .neighbor := fun τ hτ htype => by
    rcases htimers τ hτ with h | h <;> exact TaskType.noConfusion (h.symm.trans htype)
  refine ⟨?_, fun τ hτ htype => absurd htype (hno τ hτ), fun τ hτ htype => absurd htype (hno τ hτ),
    fun τ hτ => ?_⟩
  · rw [initModule_eq] at hs
    rw [← Option.some.inj hs]
    exact List.Pairwise.nil
  · rw [htasks] at hτ
    exact absurd hτ List.not_mem_nil

end Inv

/-! ## Runs -/

/-- In a run in which every hello finds the time-out that it has to cancel, no neighbour is
dropped that has been heard within the time of a time-out. -/
theorem silent_before_drop {events : List Event} (h₀ : start p clk = some w)
    (hok : AllSteps (step p) (fun e w => NextTask Task.FindsTimeout e w.router) events w) :
    AllSteps (step p) (SilentBeforeDrop p) events w := by
  have hinv : Along (step p) Inv events w :=
    along_of_step (fun _ _ _ h hok hs => h.step hok hs) (.start h₀) hok
  exact hinv.allSteps fun e w h => h.silent

instance (p : Params) (e : Event) (w : Watch) : Decidable (SilentBeforeDrop p e w) :=
  inferInstanceAs (Decidable (∀ w' ∈ step p e w, _))

/-- Node 2 is heard once, and dropped when its time-out is due. -/
def lostRun : List Event :=
  handled 1 (helloFrom (peer 2) 1) ++ [.timer (clockAt 3101)] ++
    List.replicate 3 (.thread .plenty (clockAt 3101))

theorem silent_before_drop_lostRun : ∃ w, start plainNode (clockAt 0) = some w ∧
    AllSteps (step plainNode) (SilentBeforeDrop plainNode) lostRun w := by
  have hok : (start plainNode (clockAt 0)).all (fun w => decide (AllSteps (step plainNode)
      (fun e w => NextTask Task.FindsTimeout e w.router) lostRun w)) = true := by decide +kernel
  obtain ⟨w, hw⟩ : ∃ w, start plainNode (clockAt 0) = some w :=
    ⟨_, by rw [start, initModule_eq, Option.map_some]⟩
  rw [hw] at hok
  exact ⟨w, hw, silent_before_drop hw (of_decide_eq_true hok)⟩

/-- The next hello of node 2 is waiting when the time-out becomes a task. -/
def crossingRun : List Event :=
  handled 1 (helloFrom (peer 2) 1) ++
    [.packet .plenty (clockAt 3100) (helloFrom (peer 2) 1), .timer (clockAt 3101)] ++
    List.replicate 4 (.thread .plenty (clockAt 3102))

/-- Node 2 is dropped in the millisecond in which it has been heard. -/
theorem not_silent_before_drop_crossingRun :
    ¬∀ (p : Params) (clk : Clock) (events : List Event) (w w' : Watch), start p clk = some w →
      exec (step p) events w = some w' → AllSteps (step p) (SilentBeforeDrop p) events w := by
  intro h
  have hrun : (start plainNode (clockAt 0)).any
      (fun w => (exec (step plainNode) crossingRun w).isSome &&
      !decide (AllSteps (step plainNode) (SilentBeforeDrop plainNode) crossingRun w)) = true := by
    decide +kernel
  obtain ⟨w, hw, hq⟩ := (Option.any_eq_true _ _).1 hrun
  simp only [Bool.and_eq_true, Bool.not_eq_true', decide_eq_false_iff_not,
    Option.isSome_iff_exists] at hq
  obtain ⟨⟨w', he⟩, hno⟩ := hq
  exact hno (h plainNode _ _ w w' hw he)

end Watch

end MobileCloudCaching.Aodv
