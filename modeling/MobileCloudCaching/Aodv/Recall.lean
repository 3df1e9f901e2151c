import MobileCloudCaching.Aodv.Floods

/-!
# Requests that come twice (`flood_id.c`, `rreq.c`)

`find_flood_id` stops at the first entry that has run out, and `insert_flood_id` puts an entry in
front.  So the search sees all entries as long as their lifetimes decrease along the queue.
`recv_rreq` reads the clock when it starts and inserts the flood id later; in between, an outgoing
packet may start a discovery.  Here the handler of a request therefore takes three steps: it reads
the clock, it checks the request and updates the route, and it notes the flood id and answers.
-/

namespace MobileCloudCaching.Aodv

open Octets Transition

/-! ## The parts of `recv_rreq` -/

/-- `recv_rreq` up to `insert_flood_id`: whether it gets there. -/
def beginRreq (mem : Mem) (clk : Clock) (t : Task) (m : Rreq)
    (s : Router) : Option (Bool × Router) :=
  match checkRreq clk m t.srcIp s with
  | (true, s) => (updateAodvRoute (mem .route 0) clk (m.update t) s).map fun s => (true, s)
  | (false, s) => some (false, s)

/-- `recv_rreq` from `insert_flood_id` on, with the reading of the clock from its start. -/
def finishRreq (p : Params) (mem : Mem) (read clk : Clock) (t : Task) (m : Rreq) (s : Router) :
    Option Router :=
  answerRreq p mem clk t m
    (if mem .floodId 0 then insertFloodId m.srcIp m.dstIp m.rreqId (read.now + pathDiscoveryTime) s
    else s)

/-- Without an interruption the parts are the whole. -/
theorem recvRreq_eq (p : Params) (mem : Mem) (clk : Clock) (t : Task) (m : Rreq) (s : Router) :
    recvRreq p mem clk t m s =
      if t.ttl ≤ 1 then some s
      else (beginRreq mem clk t m s).bind fun r =>
        if r.1 then finishRreq p mem clk clk t m r.2 else some r.2 := by
  unfold recvRreq beginRreq
  rcases checkRreq clk m t.srcIp s with ⟨b, s₁⟩
  cases b with
  | false => rfl
  | true =>
    dsimp only
    rw [Option.bind_map]
    rfl

/-! ## The module with a clock -/

/-- Where the thread is: at the top of its loop, in front of `check_rreq` or in front of
`insert_flood_id`, with the reading of the clock from the start of `recv_rreq`. -/
inductive Phase
  | idle
  | received (read : Clock) (t : Task) (m : Rreq)
  | accepted (read : Clock) (t : Task) (m : Rreq)

/-- A request that the node has taken up: it has started it, or it has let it pass `check_rreq`. -/
structure TakenUp where
  srcIp : U32
  id : U32
  /-- the reading from which the lifetime of the flood id counts -/
  read : ℕ
  /-- the reading with which the node has gone on -/
  time : ℕ
  received : Bool
  deriving DecidableEq, Repr

/-- The request that has passed `check_rreq` and is not noted yet. -/
def Phase.holds : Phase → TakenUp → Prop
  | .accepted read _ m, x => x.srcIp = m.srcIp ∧ x.id = m.rreqId ∧ x.read = read.now
  | _, _ => False

/-- The reading of the clock that `recv_rreq` holds. -/
def Phase.read : Phase → Option Clock
  | .idle => none
  | .received read _ _ | .accepted read _ _ => some read

structure Recall where
  router : Router
  phase : Phase
  /-- the last reading of the clock -/
  now : ℕ
  /-- ghost: the requests taken up, the last one first -/
  log : List TakenUp

inductive RecallAction
  /-- a packet comes in or goes out, the timer fires, or the thread takes a task; of a request it
  only reads the time to live and the clock -/
  | event (e : Event)
  | check (mem : Mem) (clk : Clock)
  | insert (mem : Mem) (clk : Clock)

/-- The clock that an action reads. -/
def RecallAction.clk : RecallAction → Clock
  | .event e => e.clk
  | .check _ clk | .insert _ clk => clk

/-- `recv_rreq` gets the memory for its flood id. -/
def RecallAction.hasMemory : RecallAction → Bool
  | .insert mem _ => mem .floodId 0
  | _ => true

namespace Recall

/-- The requests that have been broadcast between two states. -/
def started (clk : Clock) (s t : Router) : List TakenUp :=
  ((requests t).drop (requests s).length).map fun m =>
    { srcIp := m.srcIp, id := m.rreqId, read := clk.now, time := clk.now, received := false }

/-- The state after an event that leaves the router `t`. -/
def after (clk : Clock) (s : Recall) (t : Router) : Recall :=
  { s with router := t, now := clk.now, log := started clk s.router t ++ s.log }

/-- The thread takes a task. -/
def take (p : Params) (mem : Mem) (clk : Clock) (s : Recall) : Option Recall :=
  match getTask s.router with
  | none => some (after clk s s.router)
  | some (τ, t) =>
    match τ.type with
    | .packet (.rreq m) =>
      some { after clk s t with phase := if τ.ttl ≤ 1 then .idle else .received clk τ m }
    | _ => (handle p mem clk τ t).map (after clk s)

/-- One step; the clock does not go back. -/
def act (p : Params) (a : RecallAction) (s : Recall) : Option Recall :=
  if s.now ≤ a.clk.now then
    match a, s.phase with
    | .event (.thread mem clk), .idle => take p mem clk s
    | .event (.thread _ _), _ => none
    | .event e, _ => (step p e s.router).map (after e.clk s)
    | .check mem clk, .received read τ m => (beginRreq mem clk τ m s.router).map fun r =>
        if r.1 then
          { router := r.2, phase := .accepted read τ m, now := clk.now
            log := { srcIp := m.srcIp, id := m.rreqId, read := read.now, time := clk.now,
                     received := true } :: s.log }
        else { s with router := r.2, phase := .idle, now := clk.now }
    | .insert mem clk, .accepted read τ m => (finishRreq p mem read clk τ m s.router).map fun t =>
        { s with router := t, phase := .idle, now := clk.now }
    | _, _ => none
  else none

/-- What `init_module` leaves. -/
def start (p : Params) (clk : Clock) : Option Recall :=
  (initModule p clk).map fun s => { router := s, phase := .idle, now := clk.now, log := [] }

section Rounds

variable (p : Params) (mem : Mem) {clk read : Clock} {s : Recall} {τ : Task} {m : Rreq}

theorem act_thread (hs : s.phase = .idle) (hle : s.now ≤ clk.now) :
    act p (.event (.thread mem clk)) s = take p mem clk s := by
  unfold act
  rw [hs]
  exact if_pos hle

theorem act_check (hs : s.phase = .received read τ m) (hle : s.now ≤ clk.now) :
    (act p (.check mem clk) s).map (fun t => (t.router, t.phase, t.now)) =
      (beginRreq mem clk τ m s.router).map fun r =>
        (r.2, if r.1 then .accepted read τ m else .idle, clk.now) := by
  unfold act
  rw [hs, if_pos (show s.now ≤ (RecallAction.check mem clk).clk.now from hle)]
  dsimp only
  rw [Option.map_map]
  refine congrArg (Option.map · _) (funext fun r => ?_)
  obtain ⟨b, r⟩ := r
  cases b <;> rfl

theorem act_insert (hs : s.phase = .accepted read τ m) (hle : s.now ≤ clk.now) :
    (act p (.insert mem clk) s).map Recall.router = finishRreq p mem read clk τ m s.router := by
  unfold act
  rw [hs, if_pos (show s.now ≤ (RecallAction.insert mem clk).clk.now from hle)]
  dsimp only
  rw [Option.map_map]
  exact Option.map_id'

/-- A request that is handled without an interruption. -/
theorem exec_received (hs : s.phase = .received clk τ m) (hnow : s.now = clk.now) :
    ∃ l, (exec (act p) l s).map Recall.router = (beginRreq mem clk τ m s.router).bind fun r =>
      if r.1 then finishRreq p mem clk clk τ m r.2 else some r.2 := by
  have hcheck := act_check p mem hs hnow.le
  cases hb : beginRreq mem clk τ m s.router with
  | none =>
    rw [hb, Option.map_none, Option.map_eq_none_iff] at hcheck
    refine ⟨[.check mem clk], ?_⟩
    rw [exec_cons, hcheck, Option.bind_none, Option.map_none, Option.bind_none]
  | some r =>
    rw [hb, Option.map_some] at hcheck
    obtain ⟨t, ht, he⟩ := Option.map_eq_some_iff.1 hcheck
    obtain ⟨hr, he⟩ := Prod.mk.inj he
    obtain ⟨hphase, hnow'⟩ := Prod.mk.inj he
    rw [Option.bind_some]
    cases hg : r.1 with
    | false =>
      refine ⟨[.check mem clk], ?_⟩
      rw [exec_cons, ht, Option.bind_some, exec_nil, Option.map_some, hr, if_neg Bool.false_ne_true]
    | true =>
      rw [hg, if_pos rfl] at hphase
      refine ⟨[.check mem clk, .insert mem clk], ?_⟩
      rw [exec_cons, ht, Option.bind_some, exec_cons, if_pos rfl, ← hr,
        ← act_insert p mem hphase hnow'.le]
      exact congrArg _ (Option.bind_fun_some _)

/-- Without an interruption the steps of the thread are one round of it. -/
theorem exec_round (hs : s.phase = .idle) (hle : s.now ≤ clk.now) :
    ∃ l, (exec (act p) l s).map Recall.router = runTask p mem clk s.router := by
  have hone : exec (act p) [.event (.thread mem clk)] s = take p mem clk s := by
    rw [exec_cons, act_thread p mem hs hle]
    exact Option.bind_fun_some _
  cases hq : s.router.taskQ with
  | nil =>
    refine ⟨[.event (.thread mem clk)], ?_⟩
    rw [hone, take, runTask, getTask, hq]
    rfl
  | cons τ q =>
    have hround : runTask p mem clk s.router = handle p mem clk τ { s.router with taskQ := q } := by
      rw [runTask, getTask, hq]
    rw [hround]
    by_cases hrreq : ∃ m, τ.type = .packet (.rreq m)
    · obtain ⟨m, htype⟩ := hrreq
      have htake : take p mem clk s = some { after clk s { s.router with taskQ := q } with
          phase := if τ.ttl ≤ 1 then .idle else .received clk τ m } := by
        rw [take, getTask, hq]
        dsimp only
        rw [htype]
      have hhandle : handle p mem clk τ { s.router with taskQ := q } =
          recvRreq p mem clk τ m { s.router with taskQ := q } := by
        rw [handle, htype]
      rw [hhandle, recvRreq_eq]
      by_cases httl : τ.ttl ≤ 1
      · refine ⟨[.event (.thread mem clk)], ?_⟩
        rw [hone, htake, Option.map_some, if_pos httl, if_pos httl]
        rfl
      · rw [if_neg httl] at htake ⊢
        obtain ⟨l, hl⟩ := exec_received p mem
          (s := { after clk s { s.router with taskQ := q } with phase := .received clk τ m }) rfl
            rfl
        refine ⟨.event (.thread mem clk) :: l, ?_⟩
        rw [exec_cons, act_thread p mem hs hle, htake, Option.bind_some, hl]
        rfl
    · refine ⟨[.event (.thread mem clk)], ?_⟩
      have htake : take p mem clk s = (handle p mem clk τ { s.router with taskQ := q }).map
          (after clk s) := by
        rw [take, getTask, hq]
        dsimp only
        split
        · exact absurd ⟨_, ‹_›⟩ hrreq
        · rfl
      rw [hone, htake, Option.map_map]
      exact Option.map_id'

end Rounds

/-- `find_flood_id` finds the entries that have not run out. -/
def Detects (s : Recall) : Prop := ∀ clk : Clock, clk.now = s.now → ∀ srcIp id,
  (findFloodId clk srcIp id s.router.floodIdQueue).isSome = true ↔
    ∃ e ∈ s.router.floodIdQueue, e.srcIp = srcIp ∧ e.id = id ∧ clk.now ≤ e.lifetime

/-- No request passes `check_rreq` within `PATH_DISCOVERY_TIME` after it has been taken up. -/
def Once (s : Recall) : Prop := s.log.Pairwise fun later earlier =>
  later.received = true → later.srcIp = earlier.srcIp → later.id = earlier.id →
    earlier.read + pathDiscoveryTime < later.time

instance decidableOnce (s : Recall) : Decidable s.Once :=
  inferInstanceAs (Decidable (List.Pairwise _ _))

/-- The lifetime of the flood id that an action inserts. -/
def inserted (p : Params) (a : RecallAction) (s : Recall) : Option ℕ :=
  match a, s.phase with
  | .event (.output mem clk d), _ =>
    if startsDiscovery p mem clk d s.router then some (clk.now + pathDiscoveryTime) else none
  | .event (.thread mem clk), .idle => s.router.taskQ.head?.bind fun τ =>
    if τ.type = .resendRreq ∧ resends mem clk τ { s.router with taskQ := s.router.taskQ.tail } =
      true then
      some (clk.now + pathDiscoveryTime)
    else none
  | .insert mem _, .accepted read _ _ =>
    if mem .floodId 0 then some (read.now + pathDiscoveryTime) else none
  | _, _ => none

/-- A flood id is inserted over entries that run out no later or have already run out,
there is memory for the flood id of a request that has come in, and no entry has run out
more than half of the clock's circle ago. -/
def Orderly (p : Params) (a : RecallAction) (s : Recall) : Prop :=
  (∀ e ∈ s.router.floodIdQueue, a.clk.now ≤ e.lifetime + 2 ^ 31) ∧
  (∀ lt ∈ inserted p a s, a.clk.now ≤ lt + 2 ^ 31 ∧
    ∀ e ∈ s.router.floodIdQueue, a.clk.now ≤ e.lifetime → e.lifetime ≤ lt) ∧
  a.hasMemory = true

instance decidableOrderly (p : Params) (a : RecallAction)
    (s : Recall) : Decidable (Orderly p a s) :=
  inferInstanceAs (Decidable (_ ∧ _ ∧ _))

/-! ## The search -/

/-- Under an entry there is none that has not run out and runs out later. -/
def Ordered (now : ℕ) (l : List FloodId) : Prop :=
  l.Pairwise fun e e' => now ≤ e'.lifetime → e'.lifetime ≤ e.lifetime

theorem Ordered.later {now now' : ℕ} {l : List FloodId} (h : Ordered now l) (hle : now ≤ now') :
    Ordered now' l := h.imp fun himp hl => himp (hle.trans hl)

theorem isSome_findFloodId_iff {clk : Clock} {srcIp id : U32} {l : List FloodId}
    (hnear : ∀ e ∈ l, e.lifetime < clk.now + 2 ^ 31 ∧ clk.now ≤ e.lifetime + 2 ^ 31)
    (h : Ordered clk.now l) :
    (findFloodId clk srcIp id l).isSome = true ↔
      ∃ e ∈ l, e.srcIp = srcIp ∧ e.id = id ∧ clk.now ≤ e.lifetime := by
  induction l with
  | nil => simp [findFloodId]
  | cons e l ih =>
    obtain ⟨⟨h₁, h₂⟩, hnear⟩ := List.forall_mem_cons.1 hnear
    obtain ⟨hle, h⟩ := List.pairwise_cons.1 h
    rw [findFloodId]
    by_cases hold : timeBefore e.lifetime clk.now = true
    · -- the first entry has run out, and the others with it
      have hlt : e.lifetime < clk.now := (timeBefore_iff_of_le h₁ h₂).1 hold
      rw [if_pos hold]
      refine iff_of_false (by simp) ?_
      rintro ⟨e', he', -, -, hlive⟩
      rcases List.mem_cons.1 he' with rfl | he'
      · omega
      · have := hle e' he' hlive
        omega
    · have hlive : clk.now ≤ e.lifetime := by
        rw [timeBefore_iff_of_le h₁ h₂] at hold
        omega
      rw [if_neg hold]
      by_cases hkey : srcIp = e.srcIp ∧ id = e.id
      · rw [if_pos hkey]
        exact iff_of_true rfl ⟨e, List.mem_cons_self, hkey.1.symm, hkey.2.symm, hlive⟩
      · rw [if_neg hkey, ih hnear h]
        constructor
        · rintro ⟨e', he', hrest⟩
          exact ⟨e', List.mem_cons_of_mem _ he', hrest⟩
        · rintro ⟨e', he', hsrc, hid, hrest⟩
          rcases List.mem_cons.1 he' with rfl | he'
          · exact absurd ⟨hsrc.symm, hid.symm⟩ hkey
          · exact ⟨e', he', hsrc, hid, hrest⟩

/-- An entry that is covered by one of an earlier lifetime is missed at the end of its own. -/
theorem findFloodId_covered {e e' : FloodId} {l : List FloodId} {clk : Clock} {srcIp id : U32}
    (hlt : e.lifetime < e'.lifetime) (hnear : e'.lifetime ≤ e.lifetime + 2 ^ 31)
    (hnow : clk.now = e'.lifetime) :
    findFloodId clk srcIp id (e :: l) = none := by
  rw [findFloodId, if_pos]
  exact (timeBefore_iff_of_le (by omega) (by omega)).2 (by omega)

/-! ## What an action does -/

variable {p : Params} {s t : Recall} {a : RecallAction}

/-- What an action does to the flood ids, the phase of the thread and the log. -/
inductive Did (p : Params) (a : RecallAction) (s t : Recall) : Prop
  | kept (hq : t.router.floodIdQueue = s.router.floodIdQueue) (hlog : t.log = s.log)
      (hphase : t.phase = s.phase ∨ (∀ x, ¬s.phase.holds x) ∧ ∀ clk ∈ t.phase.read, clk = a.clk)
  | flushed (hq : t.router.floodIdQueue =
        s.router.floodIdQueue.filter fun e => !timeBefore e.lifetime a.clk.now)
      (hlog : t.log = s.log) (hphase : t.phase = s.phase)
  | started (hb : Broadcast a.clk s.router t.router)
      (hins : inserted p a s = some (a.clk.now + pathDiscoveryTime))
      (hlog : t.log = started a.clk s.router t.router ++ s.log) (hphase : t.phase = s.phase)
  | passed {read : Clock} {τ : Task} {m : Rreq} (hs : s.phase = .received read τ m)
      (hfind : findFloodId a.clk m.srcIp m.rreqId s.router.floodIdQueue = none)
      (hq : t.router.floodIdQueue = s.router.floodIdQueue) (ht : t.phase = .accepted read τ m)
      (hlog : t.log =
        { srcIp := m.srcIp, id := m.rreqId, read := read.now, time := a.clk.now,
          received := true } :: s.log)
  | noted {read : Clock} {τ : Task} {m : Rreq} {mem : Mem} (ha : a = .insert mem a.clk)
      (hs : s.phase = .accepted read τ m)
      (hq : t.router.floodIdQueue = (if mem .floodId 0 then
        insertFloodId m.srcIp m.dstIp m.rreqId (read.now + pathDiscoveryTime) s.router
          else s.router).floodIdQueue)
      (ht : t.phase = .idle) (hlog : t.log = s.log)

theorem started_of_floods {clk : Clock} {s t : Router} (h : floods t = floods s) :
    started clk s t = [] := by
  rw [started, (floods_iff.1 h).2, List.drop_length]
  rfl

theorem Did.ofFloods {e : Event} {r : Router} (h : floods r = floods s.router) :
    Did p (.event e) s (after e.clk s r) :=
  .kept (floods_iff.1 h).1 (by rw [after, started_of_floods h]; rfl) (.inl rfl)

theorem beginRreq_cases {mem : Mem} {clk : Clock} {τ : Task} {m : Rreq} {s : Router}
    {r : Bool × Router} (h : beginRreq mem clk τ m s = some r) : floods r.2 = floods s ∧
      (r.1 = true → findFloodId clk m.srcIp m.rreqId s.floodIdQueue = none) := by
  unfold beginRreq checkRreq at h
  cases hf : findFloodId clk m.srcIp m.rreqId s.floodIdQueue with
  | some e =>
    simp only [hf, Option.isSome_some, if_true, Option.some.injEq] at h
    rw [← h]
    exact ⟨rfl, fun h => Bool.noConfusion h⟩
  | none =>
    refine ⟨?_, fun _ => rfl⟩
    simp only [hf, Option.isSome_none, Bool.false_eq_true, if_false, findAodvRoute_eq] at h
    split at h
    · rename_i heq
      obtain ⟨u, hu, rfl⟩ := Option.map_eq_some_iff.1 h
      rw [← (Prod.mk.inj heq).2] at hu
      exact (floods_updateAodvRoute hu).trans (floods_searched _)
    · rename_i heq
      rw [← Option.some.inj h, ← (Prod.mk.inj heq).2]
      rfl

/-- What the thread does with the task it takes. -/
theorem did_take {mem : Mem} {clk : Clock} (hs : s.phase = .idle) (h : take p mem clk s = some t) :
    Did p (.event (.thread mem clk)) s t := by
  have hnone : ∀ x, ¬s.phase.holds x := fun x hx => by rw [hs] at hx; exact hx
  unfold take getTask at h
  cases hq : s.router.taskQ with
  | nil =>
    rw [hq] at h
    rw [← Option.some.inj h]
    exact .ofFloods rfl
  | cons τ l =>
    simp only [hq] at h
    by_cases hrreq : ∃ m, τ.type = .packet (.rreq m)
    · obtain ⟨m, htype⟩ := hrreq
      simp only [htype, Option.some.injEq] at h
      rw [← h]
      refine .kept rfl (congrArg (· ++ s.log) (started_of_floods rfl)) (.inr ⟨hnone, ?_⟩)
      dsimp only
      split
      · exact fun clk h => absurd h (Option.not_mem_none clk)
      · exact fun clk' h => (Option.some.inj h).symm
    · obtain ⟨r, hh, rfl⟩ : ∃ r, handle p mem clk τ { s.router with taskQ := l } = some r ∧
          after clk s r = t := by
        split at h
        · exact absurd ⟨_, ‹_›⟩ hrreq
        · exact Option.map_eq_some_iff.1 h
      by_cases hfree : τ.type.floodFree = true
      · exact .ofFloods ((floods_handle hfree hh).trans rfl)
      by_cases hclean : τ.type = .cleanup
      · obtain ⟨hqueue, hreqs⟩ := floods_cleanup hclean hh
        refine .flushed hqueue ?_ rfl
        rw [after, started, hreqs]
        exact congrArg (· ++ s.log) (congrArg _ List.drop_length)
      have hresend : τ.type = .resendRreq := by
        cases hτ : τ.type with
        | packet m =>
          cases m with
          | rreq m => exact absurd ⟨m, hτ⟩ hrreq
          | rrep m => exact absurd (by rw [hτ]; rfl) hfree
          | rerr m => exact absurd (by rw [hτ]; rfl) hfree
          | rrepAck => exact absurd (by rw [hτ]; rfl) hfree
        | resendRreq => rfl
        | cleanup => exact absurd hτ hclean
        | hello => exact absurd (by rw [hτ]; rfl) hfree
        | neighbor => exact absurd (by rw [hτ]; rfl) hfree
        | routeCleanup => exact absurd (by rw [hτ]; rfl) hfree
      rw [handle, hresend] at hh
      obtain rfl := Option.some.inj hh
      have hfl := resendRreq_floods mem clk τ { s.router with taskQ := l }
      cases hres : resends mem clk τ { s.router with taskQ := l } with
      | false =>
        rw [hres, if_neg Bool.false_ne_true] at hfl
        exact .ofFloods hfl
      | true =>
        rw [hres, if_pos rfl] at hfl
        refine .started (hfl.congr rfl) ?_ rfl rfl
        unfold inserted
        simp only [hs, hq, List.head?_cons, Option.bind_some, List.tail_cons]
        exact if_pos ⟨hresend, hres⟩

theorem now_take {mem : Mem} {clk : Clock} (h : take p mem clk s = some t) : t.now = clk.now := by
  unfold take at h
  split at h
  · rw [← Option.some.inj h]
    rfl
  · split at h
    · rw [← Option.some.inj h]
      rfl
    · obtain ⟨r, -, rfl⟩ := Option.map_eq_some_iff.1 h
      rfl

/-- What an action does. -/
theorem did (h : act p a s = some t) : s.now ≤ a.clk.now ∧ t.now = a.clk.now ∧ Did p a s t := by
  unfold act at h
  split at h
  case isFalse => cases h
  case isTrue hle =>
    refine ⟨hle, ?_⟩
    cases a with
    | event e =>
      cases e with
      | packet mem clk x =>
        simp only [step, Option.map_some, Option.some.injEq] at h
        obtain ⟨n, q, he, -⟩ := packetIn_cases (s := s.router) rfl
        rw [← h]
        refine ⟨rfl, .ofFloods ?_⟩
        rw [he]
        rfl
      | timer clk =>
        simp only [step, Option.map_some, Option.some.injEq] at h
        rw [← h]
        exact ⟨rfl, .ofFloods rfl⟩
      | output mem clk d =>
        simp only [step, Option.map_some, Option.some.injEq] at h
        have hfl := output_floods p mem clk d s.router
        rw [← h]
        refine ⟨rfl, ?_⟩
        cases hstart : startsDiscovery p mem clk d s.router with
        | false =>
          rw [hstart, if_neg Bool.false_ne_true] at hfl
          exact .ofFloods hfl
        | true =>
          rw [hstart, if_pos rfl] at hfl
          exact .started hfl (if_pos hstart) rfl rfl
      | thread mem clk =>
        cases hs : s.phase with
        | idle =>
          simp only [hs] at h
          exact ⟨now_take h, did_take hs h⟩
        | received read τ m => simp only [hs] at h; cases h
        | accepted read τ m => simp only [hs] at h; cases h
    | check mem clk =>
      cases hs : s.phase with
      | idle => simp only [hs] at h; cases h
      | accepted read τ m => simp only [hs] at h; cases h
      | received read τ m =>
        simp only [hs] at h
        obtain ⟨⟨b, r⟩, hb, rfl⟩ := Option.map_eq_some_iff.1 h
        obtain ⟨hfl, hfind⟩ := beginRreq_cases hb
        have hq := (floods_iff.1 hfl).1
        cases b with
        | false =>
          exact ⟨rfl, .kept hq rfl (.inr ⟨fun x hx => by rw [hs] at hx; exact hx,
            fun clk h => absurd h (Option.not_mem_none clk)⟩)⟩
        | true => exact ⟨rfl, .passed hs (hfind rfl) hq rfl rfl⟩
    | insert mem clk =>
      cases hs : s.phase with
      | idle => simp only [hs] at h; cases h
      | received read τ m => simp only [hs] at h; cases h
      | accepted read τ m =>
        simp only [hs] at h
        obtain ⟨r, hr, rfl⟩ := Option.map_eq_some_iff.1 h
        exact ⟨rfl, .noted rfl hs (floodIdQueue_answerRreq hr) rfl rfl⟩

/-! ## The invariant -/

/-- The lifetimes decrease along the queue, as far as they matter, and lie near the clock. -/
structure Sound (now : ℕ) (l : List FloodId) : Prop where
  ordered : Ordered now l
  near : ∀ e ∈ l, e.lifetime ≤ now + pathDiscoveryTime ∧ now ≤ e.lifetime + 2 ^ 31

namespace Sound

variable {now now' : ℕ} {l l' : List FloodId}

theorem later (h : Sound now l) (hle : now ≤ now') (hnear : ∀ e ∈ l, now' ≤ e.lifetime + 2 ^ 31) :
    Sound now' l where
  ordered := h.ordered.later hle
  near e he := ⟨(h.near e he).1.trans (Nat.add_le_add_right hle _), hnear e he⟩

theorem sublist (h : Sound now l) (hsub : l'.Sublist l) : Sound now l' where
  ordered := h.ordered.sublist hsub
  near e he := h.near e (hsub.subset he)

theorem cons (h : Sound now l) {e : FloodId}
    (hnear : e.lifetime ≤ now + pathDiscoveryTime ∧ now ≤ e.lifetime + 2 ^ 31)
    (hle : ∀ e' ∈ l, now ≤ e'.lifetime → e'.lifetime ≤ e.lifetime) : Sound now (e :: l) where
  ordered := List.pairwise_cons.2 ⟨hle, h.ordered⟩
  near := List.forall_mem_cons.2 ⟨hnear, h.near⟩

theorem isSome_iff {clk : Clock} {srcIp id : U32} (h : Sound clk.now l) :
    (findFloodId clk srcIp id l).isSome = true ↔
      ∃ e ∈ l, e.srcIp = srcIp ∧ e.id = id ∧ clk.now ≤ e.lifetime := by
  refine isSome_findFloodId_iff (fun e he => ⟨?_, (h.near e he).2⟩) h.ordered
  have hle := (h.near e he).1
  have hpath : pathDiscoveryTime = 1600 := rfl
  omega

end Sound

/-- The flood id of a request that has been taken up. -/
def TakenUp.isNoted (x : TakenUp) (l : List FloodId) : Prop :=
  ∃ e ∈ l, e.srcIp = x.srcIp ∧ e.id = x.id ∧ e.lifetime = x.read + pathDiscoveryTime

structure Inv (s : Recall) : Prop where
  sound : Sound s.now s.router.floodIdQueue
  read : ∀ clk ∈ s.phase.read, clk.now ≤ s.now
  noted : ∀ x ∈ s.log, s.now ≤ x.read + pathDiscoveryTime →
    s.phase.holds x ∨ TakenUp.isNoted x s.router.floodIdQueue
  once : s.Once

theorem Inv.detects (h : Inv s) : s.Detects := fun clk hclk srcIp id => by
  have hsound := h.sound
  rw [← hclk] at hsound
  exact hsound.isSome_iff

theorem inv_start {clk : Clock} (h : start p clk = some s) : Inv s := by
  obtain ⟨r, hr, rfl⟩ := Option.map_eq_some_iff.1 h
  rw [initModule_eq] at hr
  have hnil : r.floodIdQueue = [] := by
    rw [← Option.some.inj hr]
    rfl
  refine ⟨?_, fun clk h => absurd h (Option.not_mem_none clk),
    fun x hx => absurd hx List.not_mem_nil, List.Pairwise.nil⟩
  dsimp only
  rw [hnil]
  exact ⟨.nil, fun e he => absurd he List.not_mem_nil⟩

/-- Entries that have not run out stay when those that have are removed. -/
theorem mem_flushed {clk : Clock} {e : FloodId} {l : List FloodId}
    (h : Sound clk.now l) (he : e ∈ l) (hlive : clk.now ≤ e.lifetime) : e ∈
    l.filter fun e => !timeBefore e.lifetime clk.now := by
  refine List.mem_filter.2 ⟨he, ?_⟩
  obtain ⟨h₁, h₂⟩ := h.near e he
  have hpath : pathDiscoveryTime = 1600 := rfl
  have hnot : ¬timeBefore e.lifetime clk.now = true := by
    rw [timeBefore_iff_of_le (by omega) h₂]
    omega
  simpa using hnot

theorem Inv.step (h : Inv s) (hok : Orderly p a s) (ha : act p a s = some t) : Inv t := by
  obtain ⟨hle, hnow, hdid⟩ := did ha
  obtain ⟨hnear, hinserted, hmem⟩ := hok
  -- the queue at the new reading of the clock
  have hsound : Sound t.now s.router.floodIdQueue :=
    hnow ▸ h.sound.later hle hnear
  have hread : ∀ clk ∈ s.phase.read, clk.now ≤ t.now := fun clk hclk =>
    hnow ▸ (h.read clk hclk).trans hle
  have hnoted : ∀ x ∈ s.log, t.now ≤ x.read + pathDiscoveryTime →
      s.phase.holds x ∨ TakenUp.isNoted x s.router.floodIdQueue := fun x hx hx' =>
    h.noted x hx ((hnow ▸ hle).trans hx')
  cases hdid with
  | kept hq hlog hphase =>
    refine ⟨hq ▸ hsound, ?_, fun x hx hlive => ?_, ?_⟩
    · rcases hphase with hp | ⟨-, hp⟩
      · exact hp ▸ hread
      · exact fun clk hclk => (hp clk hclk ▸ hnow.ge : clk.now ≤ t.now)
    · rcases hnoted x (hlog ▸ hx) hlive with hx' | hx'
      · rcases hphase with hp | ⟨hp, -⟩
        · exact .inl (hp ▸ hx')
        · exact absurd hx' (hp x)
      · exact .inr (hq ▸ hx')
    · rw [Once, hlog]
      exact h.once
  | flushed hq hlog hphase =>
    refine ⟨hq ▸ hsound.sublist List.filter_sublist, hphase ▸ hread, fun x hx hlive => ?_, ?_⟩
    · rcases hnoted x (hlog ▸ hx) hlive with hx' | ⟨e, he, hsrc, hid, hlt⟩
      · exact .inl (hphase ▸ hx')
      · have hstay := mem_flushed (hnow ▸ hsound) he (by omega)
        exact .inr ⟨e, hq ▸ hstay, hsrc, hid, hlt⟩
    · rw [Once, hlog]
      exact h.once
  | started hb hins hlog hphase =>
    obtain ⟨m, e, hreq, hq, hsrc, hid, hlt⟩ := hb.out
    obtain ⟨-, hcover⟩ := hinserted _ hins
    have hnew : started a.clk s.router t.router =
        [{ srcIp := m.srcIp, id := m.rreqId, read := a.clk.now, time := a.clk.now,
           received := false }] := by
      rw [started, hreq, List.drop_left]
      rfl
    rw [hnew] at hlog
    refine ⟨?_, hphase ▸ hread, fun x hx hlive => ?_, ?_⟩
    · rw [hq]
      refine hsound.cons ?_ fun e' he' hlive => ?_
      · rw [hlt, hnow]
        omega
      · rw [hlt]
        exact hcover e' he' (hnow ▸ hlive)
    · rw [hlog] at hx
      rcases List.mem_cons.1 hx with rfl | hx
      · exact .inr ⟨e, hq ▸ List.mem_cons_self, hsrc, hid, hlt⟩
      · rcases hnoted x hx hlive with hx' | ⟨e', he', hx'⟩
        · exact .inl (hphase ▸ hx')
        · exact .inr ⟨e', hq ▸ List.mem_cons_of_mem _ he', hx'⟩
    · rw [Once, hlog]
      exact List.pairwise_cons.2 ⟨fun _ _ hr => Bool.noConfusion hr, h.once⟩
  | passed hs hfind hq ht hlog =>
    refine ⟨hq ▸ hsound, fun clk hclk => ?_, fun x hx hlive => ?_, ?_⟩
    · rw [ht] at hclk
      exact hread clk (by rw [hs]; exact hclk)
    · rw [hlog] at hx
      rcases List.mem_cons.1 hx with rfl | hx
      · rw [ht]
        exact .inl ⟨rfl, rfl, rfl⟩
      · rcases hnoted x hx hlive with hx' | hx'
        · rw [hs] at hx'
          exact hx'.elim
        · exact .inr (hq ▸ hx')
    · rw [Once, hlog]
      refine List.pairwise_cons.2 ⟨fun x hx _ hsrc hid => ?_, h.once⟩
      -- a request that is still noted would have been found
      by_contra hlive
      rw [Nat.not_lt] at hlive
      rcases hnoted x hx (hnow ▸ hlive) with hx' | ⟨e, he, hsrc', hid', hlt⟩
      · rw [hs] at hx'
        exact hx'.elim
      · have hfound := (hnow ▸ hsound : Sound a.clk.now _).isSome_iff.2
          ⟨e, he, hsrc'.trans hsrc.symm, hid'.trans hid.symm, by rw [hlt]; exact hlive⟩
        rw [hfind] at hfound
        cases hfound
  | @noted read τ m mem hins hs hq ht hlog =>
    have hmem' : mem .floodId 0 = true := by
      rw [hins] at hmem
      exact hmem
    have hlt : inserted p a s = some (read.now + pathDiscoveryTime) := by
      rw [hins]
      unfold inserted
      rw [hs]
      exact if_pos hmem'
    rw [hmem', if_pos rfl, insertFloodId] at hq
    dsimp only at hq
    obtain ⟨hlate, hcover⟩ := hinserted _ hlt
    refine ⟨?_, fun clk hclk => ?_, fun x hx hlive => ?_, ?_⟩
    · rw [hq]
      refine hsound.cons ⟨Nat.add_le_add_right (hread read (by rw [hs]; rfl)) _, hnow ▸ hlate⟩ ?_
      exact fun e' he' hlive => hcover e' he' (hnow ▸ hlive)
    · rw [ht] at hclk
      cases hclk
    · rcases hnoted x (hlog ▸ hx) hlive with hx' | ⟨e', he', hx'⟩
      · rw [hs] at hx'
        obtain ⟨hsrc, hid, hread⟩ := hx'
        refine .inr ⟨_, hq ▸ List.mem_cons_self, ?_⟩
        rw [hsrc, hid, hread]
        exact ⟨rfl, rfl, rfl⟩
      · exact .inr ⟨e', hq ▸ List.mem_cons_of_mem _ he', hx'⟩
    · rw [Once, hlog]
      exact h.once

/-- As long as flood ids are inserted in the order of the clock, no request is taken up twice. -/
theorem repeats_detected {clk : Clock} {actions : List RecallAction} (h₀ : start p clk = some s)
    (hok : AllSteps (act p) (Orderly p) actions s) :
    Along (act p) (fun s => s.Detects ∧ s.Once) actions s :=
  (along_of_step (fun _ _ _ h hok ha => Inv.step h hok ha) (inv_start h₀) hok).mono fun _ h =>
    ⟨h.detects, h.once⟩

/-! ## A request, and a discovery -/

/-- A request of node 3, which node 2 passes on, is handled; the node starts a discovery at
`asks`, and takes note of the request at `notes`. -/
def requestAndDiscovery (asks notes : ℕ) : List RecallAction :=
  (handled 1 (helloFrom (peer 2) 1)).map .event ++
    [.event (.packet .plenty (clockAt 2)
        { srcIp := peer 2, dstIp := broadcastIp, ttl := 10, dev := 0
          msg := .rreq { metric := 1, rreqId := 7, dstIp := peer 8, dstSeq := 0, srcIp := peer 3,
                         srcSeq := 1 } }),
      .event (.thread .plenty (clockAt 2)), .check .plenty (clockAt 2)] ++
    if asks < notes then
      [.event (.output .plenty (clockAt asks) (peer 9)), .insert .plenty (clockAt notes)]
    else [.insert .plenty (clockAt notes), .event (.output .plenty (clockAt asks) (peer 9))]

/-- Its own request comes back to the node at `now`. -/
def echo (now : ℕ) : List RecallAction :=
  [.event (.packet .plenty (clockAt now)
      { srcIp := peer 2, dstIp := broadcastIp, ttl := 5, dev := 0
        msg := .rreq { metric := 3, rreqId := 2, dstIp := peer 9, dstSeq := 0, srcIp := peer 1,
                       srcSeq := 2 } }),
    .event (.thread .plenty (clockAt now)), .check .plenty (clockAt now)]

/-- The request is noted before the discovery starts. -/
theorem repeats_detected_requestAndDiscovery : ∃ s, start plainNode (clockAt 0) = some s ∧
    Along (act plainNode) (fun s => s.Detects ∧ s.Once)
      (requestAndDiscovery 5 3 ++ echo 1604) s := by
  have hok : (start plainNode (clockAt 0)).any (fun s => decide (AllSteps (act plainNode)
      (Orderly plainNode) (requestAndDiscovery 5 3 ++ echo 1604) s)) = true := by decide +kernel
  obtain ⟨s, hs, hok⟩ := (Option.any_eq_true _ _).1 hok
  exact ⟨s, hs, repeats_detected hs (of_decide_eq_true hok)⟩

/-- The flood id of the discovery is covered by one that has been timed before it: when that one
has run out, the node takes its own request for a new one. -/
theorem not_repeats_detected_requestAndDiscovery :
    ¬∀ (p : Params) (clk : Clock) (actions : List RecallAction) (s : Recall), start p clk = some s →
      Along (act p) (fun s => s.Detects ∧ s.Once) actions s := by
  intro h
  have hrun : ((start plainNode (clockAt 0)).bind
      (exec (act plainNode) (requestAndDiscovery 5 6 ++ echo 1604))).any
      (fun t => decide ¬t.Once) = true := by decide +kernel
  obtain ⟨t, ht, hq⟩ := (Option.any_eq_true _ _).1 hrun
  obtain ⟨s, hs, he⟩ := Option.bind_eq_some_iff.1 ht
  have hboth : t.Detects ∧ t.Once := Along.reached (P := fun s => s.Detects ∧ s.Once)
    (by rw [List.append_nil]; exact h plainNode _ (requestAndDiscovery 5 6 ++ echo 1604) s hs) he
  exact of_decide_eq_true hq hboth.2

end Recall

end MobileCloudCaching.Aodv
