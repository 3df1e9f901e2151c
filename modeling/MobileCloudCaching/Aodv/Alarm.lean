import MobileCloudCaching.Aodv.Timeouts
import MobileCloudCaching.Caching.Alarm

/-!
# The kernel timer behind the timer queue (`timer_queue.c`)

Whatever changes the timer queue calls `update_timer_queue` next, which sets `aodv_timer` for the
first task; `tvtojiffies` and the delay are those of the caching daemon, to the letter.  When the
kernel runs the timer before anything else happens in the jiffy of its expiry, no task waits on the
timer queue for a jiffy after its time, and a neighbour that has fallen silent is on the list until
its time-out and no longer, but for the time that the thread takes.
-/

namespace MobileCloudCaching.Aodv

open Transition

variable {p : Params} {hz φ now : ℕ} {mem : Mem} {clk : Clock} {s t : Router} {τ : Task} {ip : U32}
  {q q' : List Task}

/-! ## Who sets the timer -/

/-- What `update_timer_queue` leaves in `aodv_timer`: the jiffy of its expiry, while it is
pending. -/
def updateTimerQueue (hz : ℕ) (clk : Clock) (s : Router) : Option ℕ :=
  match s.timerQueue with
  | [] => none
  | τ :: _ => some ((clk.jiffies + Caching.timerDelay hz τ.time clk.now) % 2 ^ 32)

/-- The handler of `τ` calls `update_timer_queue`, after its last change of the timer queue. -/
def updates (mem : Mem) (clk : Clock) (τ : Task) (s : Router) : Bool :=
  match τ.type with
  | .packet (.rrep m) =>
    -- `recv_hello` and `check_rrep`
    if m.srcIp = m.dstIp then entered mem τ m.dstIp s else validAodvNeigh clk τ.srcIp s
  | .packet _ | .routeCleanup => false
  -- `flush_flood_id_queue`
  | .cleanup => true
  -- `send_hello`
  | .hello => mem .rrep 0
  -- `delete_aodv_neigh`
  | .neighbor => listed τ.srcIp s
  -- `resend_rreq`
  | .resendRreq => resends mem clk τ s

/-- The step calls `update_timer_queue`. -/
def Event.updates (p : Params) : Event → Router → Bool
  | .packet _ _ _, _ => false
  | .output mem clk daddr, s => startsDiscovery p mem clk daddr s
  | .timer _, _ => true
  | .thread mem clk, s =>
    s.taskQ.head?.any fun τ => Aodv.updates mem clk τ { s with taskQ := s.taskQ.tail }

/-- The module with its kernel timer. -/
structure Alarmed where
  watch : Watch
  aodvTimer : Option ℕ

/-! ## What a step does to the timer queue -/

/-- Tasks are taken out of the queue `q`, and one at most is put in; the delay of a neighbour's
time-out is the longest of all. -/
def Rescheduled (now : ℕ) (q q' : List Task) : Prop :=
  ∃ l : List Task, l.Sublist q ∧
    (q' = l ∨ ∃ τ : Task, now ≤ τ.time ∧ τ.time ≤ now + neighborTimeout ∧
      q' = l.orderedInsert (fun a b => ¬ timeAfter a.time b.time) τ)

theorem Rescheduled.refl (now : ℕ) (q : List Task) : Rescheduled now q q :=
  ⟨q, List.Sublist.refl q, .inl rfl⟩

theorem rescheduled_deleteTimer {id : U32} {type : TaskType} :
    Rescheduled now s.timerQueue (deleteTimer id type s).timerQueue :=
  ⟨_, List.filter_sublist, .inl rfl⟩

theorem rescheduled_insertTimer {ok : Bool} {type : TaskType} {delay : ℕ}
    (h : delay ≤ neighborTimeout) (hs : s.timerQueue.Sublist q) :
    Rescheduled clk.now q (insertTimer ok clk type delay ip s).timerQueue := by
  refine ⟨s.timerQueue, hs, ?_⟩
  cases ok with
  | false => exact .inl rfl
  | true =>
    exact .inr ⟨timerTask clk type delay ip, Nat.le_add_right _ _, Nat.add_le_add_left h _, rfl⟩

theorem rreqDelay_le (n : ℕ) : rreqDelay n ≤ neighborTimeout := by
  have h : ∀ k ≤ rreqRetries, (2 ^^^ k) * netTraversalTime ≤ neighborTimeout := by decide
  exact h _ (Nat.sub_le _ _)

theorem rescheduled_insertRreqTimer {ok : Bool} {srcIp dstIp : U32} {n : ℕ} :
    Rescheduled clk.now s.timerQueue (insertRreqTimer ok clk srcIp dstIp n s).timerQueue := by
  refine ⟨s.timerQueue, List.Sublist.refl _, ?_⟩
  cases ok with
  | false => exact .inl rfl
  | true =>
    exact .inr ⟨rreqTimerTask clk srcIp dstIp n, Nat.le_add_right _ _,
      Nat.add_le_add_left (rreqDelay_le n) _, rfl⟩

theorem rescheduled_restartTimer :
    Rescheduled clk.now s.timerQueue (restartTimer mem clk ip s).timerQueue :=
  rescheduled_insertTimer (by decide) List.filter_sublist

theorem rescheduled_greeted {m : Rrep} :
    Rescheduled clk.now s.timerQueue (greeted mem clk τ m s).timerQueue := by
  unfold greeted
  split
  · exact rescheduled_restartTimer
  · split
    · rename_i n s₁ hc
      have hs₁ : s₁.timerQueue = s.timerQueue := by rw [(createAodvNeigh_some hc).2.2.2]
      rw [← hs₁]
      exact rescheduled_restartTimer
    · exact .refl _ _

theorem greeted_of_not_entered {m : Rrep} (h : entered mem τ m.dstIp s = false) :
    greeted mem clk τ m s = s := by
  rw [entered, Bool.or_eq_false_iff, Option.isSome_eq_false_iff, Option.isSome_eq_false_iff,
    Option.isNone_iff_eq_none, Option.isNone_iff_eq_none] at h
  rw [greeted, h.1]
  dsimp only
  rw [h.2]

theorem rescheduled_scheduled :
    Rescheduled clk.now s.timerQueue (scheduled p mem clk τ s).timerQueue := by
  unfold scheduled
  split
  · split_ifs
    · exact rescheduled_greeted
    · exact rescheduled_deleteTimer
    · exact .refl _ _
  · exact .refl _ _
  · exact .refl _ _
  · exact rescheduled_insertTimer (by decide) (List.Sublist.refl _)
  · split_ifs
    · exact rescheduled_insertTimer (by decide) (List.Sublist.refl _)
    · exact .refl _ _
  · split_ifs
    · exact rescheduled_deleteTimer
    · exact .refl _ _
  · exact rescheduled_insertRreqTimer

/-- A handler that does not call `update_timer_queue` leaves the queue alone. -/
theorem scheduled_of_not_updates (h : updates mem clk τ s = false) :
    (scheduled p mem clk τ s).timerQueue = s.timerQueue := by
  unfold updates at h
  unfold scheduled
  split <;> rename_i hτ <;> simp only [hτ] at h
  · split_ifs at h ⊢ with hm hv
    · rw [greeted_of_not_entered h]
    · exact Bool.noConfusion (hv.symm.trans h)
    · rfl
  · rfl
  · rfl
  · exact Bool.noConfusion h
  · rw [if_neg (by rw [h]; exact Bool.false_ne_true)]
  · rw [if_neg (by rw [h]; exact Bool.false_ne_true)]
  · rw [h]
    rfl

/-- What a step other than the timer's does to the queue. -/
theorem rescheduled_step {e : Event} (h : step p e s = some t) (he : ∀ clk, e ≠ .timer clk) :
    Rescheduled e.clk.now s.timerQueue t.timerQueue ∧
      (e.updates p s = false → t.timerQueue = s.timerQueue) := by
  cases e with
  | packet mem clk a =>
    obtain ⟨n, q, rfl, -⟩ := packetIn_cases (Option.some.inj h)
    exact ⟨.refl _ _, fun _ => rfl⟩
  | output mem clk daddr =>
    obtain rfl : output p mem clk daddr s = t := Option.some.inj h
    have hchores : chores (output p mem clk daddr s) = _ := chores_output daddr
    rw [(chores_iff.1 hchores).1]
    refine ⟨rescheduled_insertRreqTimer, fun hu => ?_⟩
    rw [Event.updates] at hu
    rw [hu]
    rfl
  | timer clk => exact absurd rfl (he clk)
  | thread mem clk =>
    rcases runTask_cases h with ⟨-, rfl⟩ | ⟨τ, hhead, -, hh⟩
    · exact ⟨.refl _ _, fun _ => rfl⟩
    · rw [(chores_iff.1 (chores_handle hh)).1]
      refine ⟨rescheduled_scheduled (s := { s with taskQ := s.taskQ.tail }), fun hu => ?_⟩
      rw [Event.updates, hhead] at hu
      exact scheduled_of_not_updates hu

/-! ## Jiffies -/

/-- `jiffies` at a time in milliseconds, for ticks of `1000 / hz` milliseconds; `φ` is what the
count and the phase of the ticks are at time 0. -/
def jiffiesAt (hz φ now : ℕ) : ℕ := (now * hz + φ) / 1000

theorem jiffiesAt_le (hz φ now : ℕ) : jiffiesAt hz φ now * 1000 ≤ now * hz + φ :=
  Nat.div_mul_le_self _ _

theorem lt_jiffiesAt (hz φ now : ℕ) : now * hz + φ < jiffiesAt hz φ now * 1000 + 1000 := by
  have hlt := Nat.lt_div_mul_add (a := now * hz + φ) (b := 1000) (by decide)
  exact hlt

theorem jiffiesAt_mono {now now' : ℕ} (h : now ≤ now') :
    jiffiesAt hz φ now ≤ jiffiesAt hz φ now' :=
  Nat.div_le_div_right (Nat.add_le_add_right (Nat.mul_le_mul_right hz h) φ)

/-- The task is not late, or the tick after its time has not come. -/
def Timely (hz φ now : ℕ) (τ : Task) : Prop :=
  now ≤ τ.time ∨ jiffiesAt hz φ now * 1000 < τ.time * hz + φ

theorem Timely.lt (h : Timely hz φ now τ) : now * hz < τ.time * hz + 1000 := by
  rcases h with h | h
  · exact Nat.lt_of_le_of_lt (Nat.mul_le_mul_right hz h) (Nat.lt_add_of_pos_right (by decide))
  · have hlt := lt_jiffiesAt hz φ now
    omega

/-- The kernel timer is pending, and its expiry is the tick after the task's time at the latest. -/
def Awaited (hz φ now : ℕ) (timer : Option ℕ) (τ : Task) : Prop :=
  ∃ j, timer = some (j % 2 ^ 32) ∧ jiffiesAt hz φ now ≤ j ∧ j * 1000 < τ.time * hz + φ + 1000

/-- The queue is in order, nothing on it is far ahead, and nothing is late. -/
structure Ready (hz φ now : ℕ) (q : List Task) : Prop where
  sorted : q.Pairwise fun t u => t.time ≤ u.time
  ahead : ∀ τ ∈ q, τ.time ≤ now + neighborTimeout
  timely : ∀ τ ∈ q, Timely hz φ now τ

theorem sorted_orderedInsert (hq : q.Pairwise fun t u => t.time ≤ u.time)
    (hnear : ∀ u ∈ q, u.time < τ.time + 2 ^ 31 ∧ τ.time < u.time + 2 ^ 31) :
    (q.orderedInsert (fun a b => ¬ timeAfter a.time b.time) τ).Pairwise
      fun t u => t.time ≤ u.time := by
  induction q with
  | nil => exact List.pairwise_singleton _ _
  | cons u l ih =>
    obtain ⟨hu, hl⟩ := List.forall_mem_cons.1 hnear
    obtain ⟨hfirst, hrest⟩ := List.pairwise_cons.1 hq
    have hafter : timeAfter τ.time u.time = true ↔ u.time < τ.time := timeBefore_iff hu.1 hu.2
    rw [List.orderedInsert]
    by_cases h : timeAfter τ.time u.time = true
    · rw [if_neg (not_not.2 h)]
      refine List.pairwise_cons.2 ⟨fun v hv => ?_, ih hrest hl⟩
      rcases mem_orderedInsert_timer.1 hv with rfl | hv
      · exact (hafter.1 h).le
      · exact hfirst v hv
    · rw [if_pos h]
      have hle : τ.time ≤ u.time := Nat.not_lt.1 fun hlt => h (hafter.2 hlt)
      refine List.pairwise_cons.2 ⟨fun v hv => ?_, hq⟩
      rcases List.mem_cons.1 hv with rfl | hv
      · exact hle
      · exact hle.trans (hfirst v hv)

/-- What `timer_queue_signal` leaves on a queue in order is not due. -/
theorem lt_of_mem_dropWhile (hq : q.Pairwise fun t u => t.time ≤ u.time)
    (hdue : ∀ u ∈ q, timeBeforeEq u.time now = true ↔ u.time ≤ now)
    (hτ : τ ∈ q.dropWhile fun t => timeBeforeEq t.time now) : now < τ.time := by
  induction q with
  | nil => exact absurd hτ List.not_mem_nil
  | cons u l ih =>
    obtain ⟨hu, hl⟩ := List.forall_mem_cons.1 hdue
    obtain ⟨hfirst, hrest⟩ := List.pairwise_cons.1 hq
    rw [List.dropWhile_cons] at hτ
    split_ifs at hτ with h
    · exact ih hrest hl hτ
    · have hlt : now < u.time := Nat.not_le.1 fun hle => h (hu.2 hle)
      rcases List.mem_cons.1 hτ with rfl | hτ
      · exact hlt
      · exact hlt.trans_le (hfirst τ hτ)

theorem Timely.near (hpos : 0 < hz) (h : Timely hz φ now τ) : now < τ.time + 1000 := by
  have hlt : now * hz < (τ.time + 1000) * hz := by
    calc now * hz < τ.time * hz + 1000 := h.lt
      _ ≤ τ.time * hz + 1000 * hz := Nat.add_le_add_left (Nat.le_mul_of_pos_right _ hpos) _
      _ = (τ.time + 1000) * hz := (Nat.add_mul _ _ _).symm
  exact Nat.lt_of_mul_lt_mul_right hlt

namespace Ready

theorem sublist (h : Ready hz φ now q) (hq : q'.Sublist q) : Ready hz φ now q' where
  sorted := h.sorted.sublist hq
  ahead τ hτ := h.ahead τ (hq.subset hτ)
  timely τ hτ := h.timely τ (hq.subset hτ)

theorem rescheduled (hpos : 0 < hz) (h : Ready hz φ now q) (hr : Rescheduled now q q') :
    Ready hz φ now q' := by
  obtain ⟨l, hl, rfl | ⟨τ, hlow, hhigh, rfl⟩⟩ := hr
  · exact h.sublist hl
  · have hready := h.sublist hl
    refine ⟨sorted_orderedInsert hready.sorted fun u hu => ?_, fun u hu => ?_, fun u hu => ?_⟩
    · have hahead := hready.ahead u hu
      have hnear := (hready.timely u hu).near hpos
      have hlimit : neighborTimeout < 2 ^ 30 := by decide
      constructor <;> omega
    · rcases mem_orderedInsert_timer.1 hu with rfl | hu
      · exact hhigh
      · exact hready.ahead u hu
    · rcases mem_orderedInsert_timer.1 hu with rfl | hu
      · exact .inl hlow
      · exact hready.timely u hu

/-- `update_timer_queue` sets the timer for the first task, and with it for all. -/
theorem awaited (hhz : hz ∣ 1000000) (hclk : clk.jiffies = jiffiesAt hz φ clk.now)
    (h : Ready hz φ clk.now s.timerQueue) (hτ : τ ∈ s.timerQueue) :
    Awaited hz φ clk.now (updateTimerQueue hz clk s) τ := by
  have hpos : 0 < hz := Nat.pos_of_dvd_of_pos hhz (by decide)
  cases hq : s.timerQueue with
  | nil => exact absurd (hq ▸ hτ) List.not_mem_nil
  | cons u l =>
    rw [hq] at h hτ
    have hmem : u ∈ u :: l := List.mem_cons_self
    have hfirst : u.time ≤ τ.time := by
      rcases List.mem_cons.1 hτ with rfl | hτ
      · exact Nat.le_refl _
      · exact (List.pairwise_cons.1 h.sorted).1 τ hτ
    have hnear := (h.timely u hmem).near hpos
    refine ⟨clk.jiffies + Caching.timerDelay hz u.time clk.now, ?_, ?_, ?_⟩
    · simp only [updateTimerQueue, hq]
    · rw [hclk]
      exact Nat.le_add_right _ _
    · refine Nat.lt_of_lt_of_le ?_ (Nat.add_le_add_right
        (Nat.add_le_add_right (Nat.mul_le_mul_right hz hfirst) φ) 1000)
      have hahead : u.time ≤ clk.now + 10000 :=
        (h.ahead u hmem).trans (Nat.add_le_add_left (by decide) _)
      rw [Caching.timerDelay_eq hhz (by omega) hahead, hclk]
      split_ifs with hlate
      · -- the task is late, and the next tick is the one after its time
        have htick := (h.timely u hmem).resolve_left (Nat.not_le.2 hlate)
        rw [Nat.add_mul]
        exact Nat.add_lt_add_right htick 1000
      · have htime : clk.now * hz + (u.time - clk.now) * hz = u.time * hz := by
          rw [← Nat.add_mul, Nat.add_sub_cancel' (Nat.not_lt.1 hlate)]
        have hlow := jiffiesAt_le hz φ clk.now
        have hdelay := Nat.div_mul_le_self ((u.time - clk.now) * hz + 999) 1000
        omega

end Ready

/-! ## Steps -/

namespace Alarmed

variable {w w' : Alarmed} {e : Event}

def step (p : Params) (hz : ℕ) (e : Event) (w : Alarmed) : Option Alarmed :=
  (Watch.step p e w.watch).map fun x =>
    { watch := x, aodvTimer :=
        if e.updates p w.watch.router then updateTimerQueue hz e.clk x.router else w.aodvTimer }

/-- What `init_module` leaves. -/
def start (p : Params) (hz : ℕ) (clk : Clock) : Option Alarmed :=
  (Watch.start p clk).map fun x => { watch := x, aodvTimer := updateTimerQueue hz clk x.router }

/-- `jiffies` counts the ticks, the steps are less than 2^30 milliseconds apart, and only the timer
itself runs once `aodv_timer` has expired. -/
def Punctual (hz φ : ℕ) (e : Event) (w : Alarmed) : Prop :=
  e.clk.jiffies = jiffiesAt hz φ e.clk.now ∧ e.clk.now < w.watch.now + 2 ^ 30 ∧
    match e with
    | .timer _ => True
    | _ => ∀ j ∈ w.aodvTimer, timeBefore e.clk.jiffies j = true

instance (hz φ : ℕ) (w : Alarmed) : ∀ e, Decidable (Punctual hz φ e w)
  | .timer _ => inferInstanceAs (Decidable (_ ∧ _ ∧ True))
  | .packet _ _ _ | .output _ _ _ | .thread _ _ =>
    inferInstanceAs (Decidable (_ ∧ _ ∧ ∀ j ∈ w.aodvTimer, _ = true))

/-- What every step keeps. -/
structure Inv (hz φ : ℕ) (w : Alarmed) : Prop where
  ready : Ready hz φ w.watch.now w.watch.router.timerQueue
  awaited : ∀ τ ∈ w.watch.router.timerQueue, Awaited hz φ w.watch.now w.aodvTimer τ

/-- No task on the timer queue is a jiffy late, and the kernel timer
is set for the tick after its time or an earlier one. -/
def OnTime (hz φ : ℕ) (w : Alarmed) : Prop :=
  ∀ τ ∈ w.watch.router.timerQueue,
    w.watch.now * hz < τ.time * hz + 1000 ∧ Awaited hz φ w.watch.now w.aodvTimer τ

theorem Inv.onTime (h : Inv hz φ w) : OnTime hz φ w := fun τ hτ =>
  ⟨(h.ready.timely τ hτ).lt, h.awaited τ hτ⟩

theorem timeBefore_mod (a b : ℕ) : timeBefore a (b % 2 ^ 32) = timeBefore a b := by
  have hmod : BitVec.ofNat 32 (b % 2 ^ 32) = BitVec.ofNat 32 b := by
    refine BitVec.eq_of_toNat_eq ?_
    rw [BitVec.toNat_ofNat, BitVec.toNat_ofNat, Nat.mod_mod]
  rw [timeBefore, timeBefore, hmod]

/-- Before the kernel timer has expired, the tick after the task's time has not come. -/
theorem jiffiesAt_lt_of_awaited (hle : hz ≤ 1000) {now' j : ℕ} (hnow : now ≤ now')
    (hsoon : now' < now + 2 ^ 30) (hlow : jiffiesAt hz φ now ≤ j)
    (hhigh : j * 1000 < τ.time * hz + φ + 1000) (hahead : τ.time ≤ now + neighborTimeout)
    (hb : timeBefore (jiffiesAt hz φ now') (j % 2 ^ 32) = true) : jiffiesAt hz φ now' < j := by
  rw [timeBefore_mod] at hb
  have hmono : jiffiesAt hz φ now ≤ jiffiesAt hz φ now' := jiffiesAt_mono hnow
  have hnext := lt_jiffiesAt hz φ now
  have hnow' := jiffiesAt_le hz φ now'
  have hstep : now' * hz ≤ now * hz + 2 ^ 30 * 1000 := by
    calc now' * hz ≤ (now + 2 ^ 30) * hz := Nat.mul_le_mul_right hz hsoon.le
      _ = now * hz + 2 ^ 30 * hz := Nat.add_mul _ _ _
      _ ≤ now * hz + 2 ^ 30 * 1000 := Nat.add_le_add_left (Nat.mul_le_mul_left _ hle) _
  have htask : τ.time * hz ≤ now * hz + 3100 * 1000 := by
    calc τ.time * hz ≤ (now + neighborTimeout) * hz := Nat.mul_le_mul_right hz hahead
      _ = now * hz + 3100 * hz := Nat.add_mul _ _ _
      _ ≤ now * hz + 3100 * 1000 := Nat.add_le_add_left (Nat.mul_le_mul_left _ hle) _
  exact (timeBefore_iff (by omega) (by omega)).1 hb

theorem Inv.step (h : Inv hz φ w) (hhz : hz ∣ 1000000) (hle : hz ≤ 1000)
    (hp : Punctual hz φ e w) (hs : step p hz e w = some w') : Inv hz φ w' := by
  have hpos : 0 < hz := Nat.pos_of_dvd_of_pos hhz (by decide)
  obtain ⟨hclk, hsoon, hkernel⟩ := hp
  obtain ⟨x, hx, rfl⟩ := Option.map_eq_some_iff.1 hs
  obtain ⟨hnow, hx⟩ := Option.ite_none_right_eq_some.1 hx
  obtain ⟨t, ht, rfl⟩ := Option.map_eq_some_iff.1 hx
  have hahead : ∀ τ ∈ w.watch.router.timerQueue, τ.time ≤ e.clk.now + neighborTimeout := fun τ hτ =>
    (h.ready.ahead τ hτ).trans (Nat.add_le_add_right hnow _)
  by_cases htimer : ∃ clk, e = .timer clk
  · obtain ⟨clk, rfl⟩ := htimer
    obtain rfl : timerQueueSignal clk w.watch.router = t := Option.some.inj ht
    have hsub := List.dropWhile_sublist (l := w.watch.router.timerQueue) fun t =>
      timeBeforeEq t.time clk.now
    have hdue : ∀ τ ∈ w.watch.router.timerQueue,
        timeBeforeEq τ.time clk.now = true ↔ τ.time ≤ clk.now := fun τ hτ => by
      have hnear := (h.ready.timely τ hτ).near hpos
      have hlimit : neighborTimeout < 2 ^ 30 := by decide
      have hfar := hahead τ hτ
      rw [Event.clk] at hsoon hfar
      exact timeBeforeEq_iff (by omega) (by omega)
    have hready : Ready hz φ clk.now (timerQueueSignal clk w.watch.router).timerQueue :=
      ⟨h.ready.sorted.sublist hsub, fun τ hτ => hahead τ (hsub.subset hτ), fun τ hτ =>
        .inl (lt_of_mem_dropWhile h.ready.sorted hdue hτ).le⟩
    exact ⟨hready, fun τ hτ => hready.awaited hhz hclk hτ⟩
  · have hearly : ∀ τ ∈ w.watch.router.timerQueue, ∃ j, w.aodvTimer = some (j % 2 ^ 32) ∧
        jiffiesAt hz φ e.clk.now < j ∧ j * 1000 < τ.time * hz + φ + 1000 := fun τ hτ => by
      obtain ⟨j, hj, hlow, hhigh⟩ := h.awaited τ hτ
      refine ⟨j, hj, ?_, hhigh⟩
      refine jiffiesAt_lt_of_awaited hle hnow hsoon hlow hhigh (h.ready.ahead τ hτ) ?_
      rw [← hclk]
      cases e with
      | timer clk => exact absurd ⟨clk, rfl⟩ htimer
      | packet | output | thread => exact hkernel _ hj
    have hold : Ready hz φ e.clk.now w.watch.router.timerQueue := by
      refine ⟨h.ready.sorted, hahead, fun τ hτ => .inr ?_⟩
      obtain ⟨j, -, hlow, hhigh⟩ := hearly τ hτ
      have htick := (Nat.mul_le_mul_right 1000 hlow).trans_lt hhigh
      rw [Nat.succ_mul] at htick
      exact Nat.lt_of_add_lt_add_right htick
    obtain ⟨hr, hsame⟩ := rescheduled_step ht fun clk he => htimer ⟨clk, he⟩
    have hready : Ready hz φ e.clk.now t.timerQueue := hold.rescheduled hpos hr
    refine ⟨hready, fun τ hτ => ?_⟩
    cases hu : e.updates p w.watch.router with
    | true => exact hready.awaited hhz hclk hτ
    | false =>
      rw [hsame hu] at hτ
      obtain ⟨j, hj, hlow, hhigh⟩ := hearly τ hτ
      exact ⟨j, hj, hlow.le, hhigh⟩

theorem Inv.start (hhz : hz ∣ 1000000) (hclk : clk.jiffies = jiffiesAt hz φ clk.now)
    (h : start p hz clk = some w) : Inv hz φ w := by
  have hpos : 0 < hz := Nat.pos_of_dvd_of_pos hhz (by decide)
  obtain ⟨x, hx, rfl⟩ := Option.map_eq_some_iff.1 h
  obtain ⟨s, hs, rfl⟩ := Option.map_eq_some_iff.1 hx
  rw [initModule_eq] at hs
  have hnil : Ready hz φ clk.now [] := ⟨.nil, List.forall_mem_nil _, List.forall_mem_nil _⟩
  have hready : Ready hz φ clk.now s.timerQueue := by
    rw [← Option.some.inj hs]
    refine (hnil.rescheduled hpos ?_).rescheduled hpos
      (rescheduled_insertTimer (by decide) (List.Sublist.refl _))
    exact rescheduled_insertTimer (by decide) (List.Sublist.refl _)
  exact ⟨hready, fun τ hτ => hready.awaited hhz hclk hτ⟩

/-! ## Runs -/

/-- In every run of the module in which the kernel runs the timer as soon as it has expired, no
task waits on the timer queue for a jiffy after its time. -/
theorem timers_on_time {events : List Event} (hhz : hz ∣ 1000000) (hle : hz ≤ 1000)
    (hclk : clk.jiffies = jiffiesAt hz φ clk.now) (h₀ : start p hz clk = some w)
    (hok : AllSteps (step p hz) (Punctual hz φ) events w) :
    Along (step p hz) (OnTime hz φ) events w :=
  (along_of_step (fun _ _ _ h hp hs => Inv.step h hhz hle hp hs) (.start hhz hclk h₀) hok).mono
    fun _ h => h.onTime

/-- A kernel with 100 ticks a second. -/
def tickAt (now : ℕ) : Clock := ⟨now, jiffiesAt 100 0 now⟩

/-- The timer runs, and the thread after it. -/
def timerAt (now : ℕ) : List Event :=
  .timer (tickAt now) :: List.replicate 2 (.thread .plenty (tickAt now))

/-- Node 2 is heard once, in the first millisecond. -/
def silentRun : List Event :=
  [.packet .plenty (tickAt 1) (helloFrom (peer 2) 1), .thread .plenty (tickAt 1)] ++ timerAt 1000 ++
    timerAt 2000 ++ timerAt 3000 ++ [.output .plenty (tickAt 3100) (peer 9)] ++ timerAt 3110

theorem silentRun_punctual : ∃ w, start plainNode 100 (tickAt 0) = some w ∧
    AllSteps (step plainNode 100) (Punctual 100 0) silentRun w := by
  have hok : (start plainNode 100 (tickAt 0)).all (fun w => decide
      (AllSteps (step plainNode 100) (Punctual 100 0) silentRun w)) = true := by decide +kernel
  obtain ⟨w, hw⟩ : ∃ w, start plainNode 100 (tickAt 0) = some w :=
    ⟨_, by rw [start, Watch.start, initModule_eq, Option.map_some, Option.map_some]⟩
  rw [hw] at hok
  exact ⟨w, hw, of_decide_eq_true hok⟩

theorem timers_on_time_silentRun : ∃ w, start plainNode 100 (tickAt 0) = some w ∧
    Along (step plainNode 100) (OnTime 100 0) silentRun w := by
  obtain ⟨w, hw, hok⟩ := silentRun_punctual
  exact ⟨w, hw, timers_on_time (by decide) (by decide) rfl hw hok⟩

/-- Two packets go out in the jiffies in which the timer has expired. -/
def lateRun : List Event :=
  [.output .plenty (tickAt 1009) (peer 9), .output .plenty (tickAt 1019) (peer 10)]

/-- `update_timer_queue` sets the timer for the next tick when a task is late: it is not enough
that the timer runs in the jiffy of its expiry. -/
theorem not_timers_on_time_lateRun : ¬∀ (p : Params) (hz φ : ℕ) (clk : Clock) (w : Alarmed)
    (events : List Event), hz ∣ 1000000 → hz ≤ 1000 → clk.jiffies = jiffiesAt hz φ clk.now →
      start p hz clk = some w → AllSteps (step p hz) (fun e w =>
        e.clk.jiffies = jiffiesAt hz φ e.clk.now ∧ e.clk.now < w.watch.now + 2 ^ 30 ∧
          ∀ j ∈ w.aodvTimer, timeBefore j e.clk.jiffies = false) events w →
        Along (step p hz) (OnTime hz φ) events w := by
  intro h
  have hrun : (start plainNode 100 (tickAt 0)).any (fun w =>
      decide (AllSteps (step plainNode 100) (fun e w =>
        e.clk.jiffies = jiffiesAt 100 0 e.clk.now ∧ e.clk.now < w.watch.now + 2 ^ 30 ∧
          ∀ j ∈ w.aodvTimer, timeBefore j e.clk.jiffies = false) lateRun w) &&
      (exec (step plainNode 100) lateRun w).any fun w' => w'.watch.router.timerQueue.any fun τ =>
        decide (τ.time * 100 + 1000 ≤ w'.watch.now * 100)) = true := by
    decide +kernel
  obtain ⟨w, hw, hq⟩ := (Option.any_eq_true _ _).1 hrun
  obtain ⟨hok, he⟩ := (Bool.and_eq_true _ _).mp hq
  obtain ⟨w', he, hlate⟩ := (Option.any_eq_true _ _).1 he
  obtain ⟨τ, hτ, hlate⟩ := List.any_eq_true.1 hlate
  have halong := h plainNode 100 0 _ w lateRun (by decide) (by decide) rfl hw
    (of_decide_eq_true hok)
  have hontime : OnTime 100 0 w' := Along.reached (by rw [List.append_nil]; exact halong) he
  exact Nat.not_lt.2 (of_decide_eq_true hlate) (hontime τ hτ).1

/-! ## How long a silent neighbour stays -/

/-- Hellos are in the past, and each listed neighbour has a time-out for a hello that
`recv_hello` has seen. -/
structure Dated (x : Watch) : Prop where
  ascending : NeighsAscending x.router
  past : ∀ ip, ∀ h ∈ x.heard ip, h ≤ x.now
  dated : ∀ ip, listed ip x.router = true → ∃ h ∈ x.heard ip,
    ∃ τ ∈ x.router.timerQueue ++ x.router.taskQ, τ.TimesOut ip ∧ τ.time ≤ h + neighborTimeout

/-- A listed neighbour has been heard within the time of a time-out and a jiffy, or its time-out
waits for the thread. -/
def HeardLately (hz : ℕ) (w : Alarmed) : Prop :=
  ∀ ip, listed ip w.watch.router = true →
    (∃ h ∈ w.watch.heard ip, w.watch.now * hz < (h + neighborTimeout) * hz + 1000) ∨
      ∃ τ ∈ w.watch.router.taskQ, τ.TimesOut ip

theorem Inv.heardLately (h : Inv hz φ w) (hd : Dated w.watch) : HeardLately hz w := by
  intro ip hl
  obtain ⟨h₀, hh, τ, hτ, hout, htime⟩ := hd.dated ip hl
  rcases List.mem_append.1 hτ with hτ | hτ
  · exact .inl ⟨h₀, hh, (h.ready.timely τ hτ).lt.trans_le
      (Nat.add_le_add_right (Nat.mul_le_mul_right hz htime) _)⟩
  · exact .inr ⟨τ, hτ, hout⟩

namespace Dated

variable {x x' : Watch}

theorem heardAfter_cases (e : Event) (x : Watch) (ip : U32) :
    Watch.heardAfter e x ip = x.heard ip ∨ Watch.heardAfter e x ip = some e.clk.now := by
  cases e with
  | packet | output | timer => exact .inl rfl
  | thread mem clk =>
    unfold Watch.heardAfter
    cases hhead : x.router.taskQ.head?.bind Task.helloOf with
    | none => exact .inl rfl
    | some ip' =>
      by_cases hip : ip = ip'
      · subst hip
        exact .inr (Function.update_self ..)
      · exact .inl (Function.update_of_ne hip ..)

theorem heardAfter_past (hd : Dated x) (hnow : x.now ≤ e.clk.now) {h : ℕ}
    (hh : h ∈ Watch.heardAfter e x ip) : h ≤ e.clk.now := by
  rcases heardAfter_cases e x ip with he | he
  · exact (hd.past ip h (he ▸ hh)).trans hnow
  · exact (Option.some.inj (he.symm.trans hh)).ge

/-- A hello makes the time later. -/
theorem le_heardAfter (hd : Dated x) (hnow : x.now ≤ e.clk.now) {h : ℕ} (hh : h ∈ x.heard ip) :
    ∃ h' ∈ Watch.heardAfter e x ip, h ≤ h' := by
  rcases heardAfter_cases e x ip with he | he
  · exact ⟨h, he.trans hh, Nat.le_refl _⟩
  · exact ⟨e.clk.now, he, (hd.past ip h hh).trans hnow⟩

/-- A neighbour that keeps its time-out. -/
theorem keep (hd : Dated x) (hnow : x.now ≤ e.clk.now) (hl : listed ip x.router = true)
    (hkeep : ∀ τ ∈ x.router.timerQueue ++ x.router.taskQ, τ.TimesOut ip →
      τ ∈ t.timerQueue ++ t.taskQ) :
    ∃ h ∈ Watch.heardAfter e x ip, ∃ τ ∈ t.timerQueue ++ t.taskQ,
      τ.TimesOut ip ∧ τ.time ≤ h + neighborTimeout := by
  obtain ⟨h, hh, τ, hτ, hout, htime⟩ := hd.dated ip hl
  obtain ⟨h', hh', hle⟩ := hd.le_heardAfter hnow hh
  exact ⟨h', hh', τ, hkeep τ hτ hout, hout, htime.trans (Nat.add_le_add_right hle _)⟩

theorem step (hd : Dated x) (hmem : e.Succeeds) (hs : Watch.step p e x = some x')
    (hahead : ∀ τ ∈ x'.router.timerQueue, τ.time ≤ x'.now + neighborTimeout) : Dated x' := by
  obtain ⟨hnow, hs⟩ := Option.ite_none_right_eq_some.1 hs
  obtain ⟨t, ht, rfl⟩ := Option.map_eq_some_iff.1 hs
  refine ⟨hd.ascending.step hmem ht, fun ip h hh => hd.heardAfter_past hnow hh, fun ip hl => ?_⟩
  by_cases hun : e.Unheard ip x.router
  · rcases listed_step hd.ascending hmem ht hl with ⟨hheard, -⟩ | ⟨hl, hkeep⟩
    · exact absurd hun hheard
    · exact hd.keep hnow hl hkeep
  · -- a hello of `ip`: the handler has set a time-out from now on
    cases e with
    | packet | output | timer => exact absurd trivial hun
    | thread mem clk =>
      rcases runTask_cases ht with ⟨hq, -⟩ | ⟨τ, hhead, hq, hh⟩
      · refine absurd (fun τ hτ => ?_) hun
        rw [hq] at hτ
        cases hτ
      · have hhello : τ.helloOf = some ip := by
          refine by_contra fun hne => hun fun σ hσ => ?_
          rw [hhead] at hσ
          rw [← Option.some.inj hσ]
          exact hne
        have hheard : Watch.heardAfter (.thread mem clk) x ip = some clk.now := by
          unfold Watch.heardAfter
          rw [hhead, Option.bind_some, hhello]
          exact Function.update_self ..
        have hd' : Handled τ { x.router with taskQ := x.router.taskQ.tail } t :=
          .handle hd.ascending hmem hh
        rcases hd'.listed ip hl with ⟨-, σ, hσ, hout⟩ | ⟨hl, hne, hkeep⟩
        · exact ⟨clk.now, hheard, σ, List.mem_append_left _ hσ, hout, hahead σ hσ⟩
        · refine hd.keep hnow hl fun σ hσ hout => ?_
          rw [hd'.tasks]
          rw [hq] at hσ
          rcases List.mem_append.1 hσ with hσ | hσ
          · exact List.mem_append_left _ (hkeep σ hσ hout)
          · rcases List.mem_cons.1 hσ with rfl | hσ
            · exact absurd hout hne
            · exact List.mem_append_right _ hσ

theorem start (h : Watch.start p clk = some x) : Dated x := by
  obtain ⟨s, hs, rfl⟩ := Option.map_eq_some_iff.1 h
  rw [initModule_eq] at hs
  rw [← Option.some.inj hs]
  refine ⟨List.Pairwise.nil, fun ip h hh => ?_, fun ip hl => Bool.noConfusion hl⟩
  have hnone : none = some h := hh
  cases hnone

end Dated

/-- In every run of the module without a shortage of memory in which the kernel runs the timer as
soon as it has expired, a neighbour is not listed for longer than a time-out and a jiffy after its
last hello, but for the time that its time-out waits for the thread. -/
theorem neighs_heard_lately {events : List Event} (hhz : hz ∣ 1000000) (hle : hz ≤ 1000)
    (hclk : clk.jiffies = jiffiesAt hz φ clk.now) (h₀ : start p hz clk = some w)
    (hmem : ∀ e ∈ events, e.Succeeds) (hok : AllSteps (step p hz) (Punctual hz φ) events w) :
    Along (step p hz) (HeardLately hz) events w := by
  have hstart : Dated w.watch := by
    obtain ⟨x, hx, rfl⟩ := Option.map_eq_some_iff.1 h₀
    exact .start hx
  have hinv : Along (step p hz) (fun w => Inv hz φ w ∧ Dated w.watch) events w := by
    refine along_of_step (fun e w w' ⟨h, hd⟩ ⟨hp, hmem⟩ hs => ?_) ⟨.start hhz hclk h₀, hstart⟩
      (hok.and (allSteps_of_mem hmem w))
    have hnext : Inv hz φ w' := h.step hhz hle hp hs
    obtain ⟨x, hx, rfl⟩ := Option.map_eq_some_iff.1 hs
    exact ⟨hnext, hd.step hmem hx hnext.ready.ahead⟩
  exact hinv.mono fun _ h => h.1.heardLately h.2

theorem neighs_heard_lately_silentRun : ∃ w, start plainNode 100 (tickAt 0) = some w ∧
    Along (step plainNode 100) (HeardLately 100) silentRun w := by
  obtain ⟨w, hw, hok⟩ := silentRun_punctual
  have hmem : ∀ e ∈ silentRun, e.Succeeds := by
    simp [silentRun, timerAt, Event.Succeeds, Mem.plenty_succeeds]
  exact ⟨w, hw, neighs_heard_lately (by decide) (by decide) rfl hw hmem hok⟩

end Alarmed

end MobileCloudCaching.Aodv
