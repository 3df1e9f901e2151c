import MobileCloudCaching.Aodv.Mesh

/-!
# Handlers that read the clock twice

`check_rreq` and `check_rrep` test whether the node that a message has come from is a valid
neighbour, and `update_aodv_route` tests it again.  If the neighbour runs out in between, the route
is refused, but the message is handed on all the same.
-/

namespace MobileCloudCaching.Aodv

open Transition Cycles

variable {p : Params} {mem : Mem} {clk clk' : Clock} {τ : Task} {ip : U32} {s : Router}

/-! ## Two readings -/

section Definitions

variable (p : Params) (mem : Mem) (clk clk' : Clock)

/-- `recv_rreq`, in which `check_rreq` reads the clock before the rest does. -/
def recvRreqLate (t : Task) (m : Rreq) (s : Router) : Option Router :=
  if t.ttl ≤ 1 then some s
  else
    match checkRreq clk m t.srcIp s with
    | (true, s) => acceptRreq p mem clk' t m s
    | (false, s) => some s

/-- `recv_rrep`, in which `check_rrep` reads the clock before the rest does. -/
def recvRrepLate (t : Task) (m : Rrep) (s : Router) : Option Router :=
  if m.srcIp = m.dstIp then recvHello mem clk t m { s with overhead := s.overhead - 1 }
  else
    match checkRrep clk t m s with
    | (true, s) => acceptRrep p mem clk' t m s
    | (false, s) => some s

def handleLate (t : Task) (s : Router) : Option Router :=
  match t.type with
  | .packet (.rreq m) => recvRreqLate p mem clk clk' t m s
  | .packet (.rrep m) => recvRrepLate p mem clk clk' t m s
  | _ => handle p mem clk t s

/-- One round of the loop of `aodv`. -/
def runTaskLate (s : Router) : Option Router :=
  match getTask s with
  | none => some s
  | some (t, s) => handleLate p mem clk clk' t s

/-- The message in the task passes `check_rreq` or `check_rrep`. -/
def passes (t : Task) (s : Router) : Bool :=
  match t.type with
  | .packet (.rreq m) => !decide (t.ttl ≤ 1) && (checkRreq clk m t.srcIp s).1
  | .packet (.rrep m) => m.srcIp != m.dstIp && (checkRrep clk t m s).1
  | _ => false

/-- The search of `check_rreq` for the node that asks. -/
def looked (t : Task) (s : Router) : Router :=
  match t.type with
  | .packet (.rreq m) => searched clk m.srcIp s
  | _ => s

end Definitions

/-! ## One reading instead of two -/

theorem handleLate_self : handleLate p mem clk clk τ s = handle p mem clk τ s := by
  unfold handleLate
  split
  · rename_i m hτ
    rw [handle, hτ]
    rfl
  · rename_i m hτ
    rw [handle, hτ]
    rfl
  · rfl

theorem updateAodvRoute_searched {ok : Bool} {u : Update} :
    updateAodvRoute ok clk u (searched clk u.ip s) = updateAodvRoute ok clk u s := by
  simp only [updateAodvRoute, findAodvRoute_eq, foundRoute_searched, searched_searched]
  rfl

theorem acceptRreq_searched {m : Rreq} :
    acceptRreq p mem clk τ m (searched clk m.srcIp s) = acceptRreq p mem clk τ m s := by
  have hupdate : updateAodvRoute (mem .route 0) clk (m.update τ) (searched clk m.srcIp s) =
      updateAodvRoute (mem .route 0) clk (m.update τ) s := updateAodvRoute_searched
  rw [acceptRreq, acceptRreq, hupdate]

theorem checkRreq_eq {m : Rreq} (h : (checkRreq clk m ip s).1 = true) :
    checkRreq clk m ip s = (true, searched clk m.srcIp s) := by
  unfold checkRreq at h ⊢
  split
  · rename_i hflood
    rw [if_pos hflood] at h
    cases h
  · rename_i hflood
    rw [if_neg hflood] at h
    exact Prod.ext h rfl

theorem checkRrep_eq {m : Rrep} (h : (checkRrep clk τ m s).1 = true) :
    checkRrep clk τ m s = (true, deleteTimer m.dstIp .resendRreq s) := by
  unfold checkRrep at h ⊢
  split
  · rename_i hno
    rw [if_pos hno] at h
    cases h
  · rfl

/-- The check looks at the flood ids and the neighbours only. -/
theorem checkRreq_searched {m : Rreq} {srcIp : U32} :
    (checkRreq clk' m ip (searched clk srcIp s)).1 = (checkRreq clk' m ip s).1 := by
  have hflood : (searched clk srcIp s).floodIdQueue = s.floodIdQueue := rfl
  unfold checkRreq
  rw [hflood]
  split <;> rfl

/-- A message that does not pass is handled at the first reading. -/
theorem handleLate_of_not (h : passes clk τ s = false) :
    handleLate p mem clk clk' τ s = handle p mem clk τ s := by
  unfold passes at h
  unfold handleLate
  split
  · rename_i m hτ
    rw [hτ] at h
    rw [handle, hτ]
    dsimp only at h ⊢
    rw [recvRreqLate, recvRreq]
    by_cases httl : τ.ttl ≤ 1
    · rw [if_pos httl, if_pos httl]
    · rw [if_neg httl, if_neg httl]
      rcases hc : checkRreq clk m τ.srcIp s with ⟨b, t⟩
      obtain rfl : b = false := by
        rw [decide_eq_false httl, hc] at h
        exact h
      rfl
  · rename_i m hτ
    rw [hτ] at h
    rw [handle, hτ]
    dsimp only at h ⊢
    rw [recvRrepLate, recvRrep]
    by_cases hhello : m.srcIp = m.dstIp
    · rw [if_pos hhello, if_pos hhello]
    · rw [if_neg hhello, if_neg hhello]
      rcases hc : checkRrep clk τ m s with ⟨b, t⟩
      obtain rfl : b = false := by simpa [hhello, hc] using h
      rfl
  · rfl

/-- A message that passes at both readings is handled as if it came at the second one, but for what
the search at the first one has marked. -/
theorem handleLate_of_passes (h : passes clk τ s = true) (h' : passes clk' τ s = true) :
    handleLate p mem clk clk' τ s = handle p mem clk' τ (looked clk τ s) := by
  unfold passes at h h'
  unfold handleLate looked
  split
  · rename_i m hτ
    rw [hτ] at h h'
    simp only [Bool.and_eq_true, Bool.not_eq_true', decide_eq_false_iff_not] at h h'
    rw [handle, hτ]
    dsimp only
    have hsame : (checkRreq clk' m τ.srcIp (searched clk m.srcIp s)).1 = true :=
      checkRreq_searched.trans h'.2
    rw [recvRreqLate, recvRreq, if_neg h.1, if_neg h.1, checkRreq_eq h.2, checkRreq_eq hsame]
    exact acceptRreq_searched.symm
  · rename_i m hτ
    rw [hτ] at h h'
    simp only [Bool.and_eq_true, bne_iff_ne] at h h'
    rw [handle, hτ]
    dsimp only
    simp only [recvRrepLate, recvRrep, if_neg h.1, checkRrep_eq h.2, checkRrep_eq h'.2]
  · rename_i hno hno'
    split at h
    · exact absurd ‹_› (hno _)
    · exact absurd ‹_› (hno' _)
    · cases h

/-! ## The thread -/

theorem passes_congr {t : Router} (hflood : t.floodIdQueue = s.floodIdQueue)
    (hneighs : t.neighs = s.neighs) : passes clk τ t = passes clk τ s := by
  have hvalid : ∀ ip, validAodvNeigh clk ip t = validAodvNeigh clk ip s := fun ip => by
    rw [validAodvNeigh, validAodvNeigh, findAodvNeigh, findAodvNeigh, hneighs]
  have hsearched : ∀ (ip ip' : U32) (r : Router),
      validAodvNeigh clk ip (searched clk ip' r) = validAodvNeigh clk ip r := fun _ _ _ => rfl
  unfold passes checkRreq checkRrep
  simp only [findAodvRoute_eq, hsearched, hflood, hvalid]
  split
  · split <;> rfl
  · split <;> rfl
  · rfl

theorem looked_eq (clk : Clock) (τ : Task) (s : Router) :
    ∃ l, looked clk τ s = { s with routes := l } := by
  unfold looked
  split <;> exact ⟨_, rfl⟩

theorem looked_taskQ (q : List Task) :
    looked clk τ { s with taskQ := q } = { looked clk τ s with taskQ := q } := by
  unfold looked
  split <;> rfl

/-- The thread takes the task at the head. -/
theorem getTask_of_head (h : s.taskQ.head? = some τ) :
    getTask s = some (τ, { s with taskQ := s.taskQ.tail }) := by
  cases hq : s.taskQ with
  | nil => rw [hq] at h; cases h
  | cons τ' q =>
    rw [hq] at h
    obtain rfl := Option.some.inj h
    rw [getTask, hq]
    rfl

/-- A round with two readings is one with the first reading, or one with the second after a
search. -/
theorem runTaskLate_eq (h : s.taskQ.head? = some τ)
    (hagree : passes clk τ s = true → passes clk' τ s = true) :
    runTaskLate p mem clk clk' s =
      if passes clk τ s then runTask p mem clk' (looked clk τ s) else runTask p mem clk s := by
  have htail : ∀ clk, passes clk τ { s with taskQ := s.taskQ.tail } = passes clk τ s :=
    fun _ => passes_congr rfl rfl
  have hlate : runTaskLate p mem clk clk' s =
      handleLate p mem clk clk' τ { s with taskQ := s.taskQ.tail } := by
    simp only [runTaskLate, getTask_of_head h]
  rw [hlate]
  split
  · rename_i hp
    have hq : (looked clk τ s).taskQ = s.taskQ := by
      obtain ⟨l, hl⟩ := looked_eq clk τ s
      rw [hl]
    have hhead : (looked clk τ s).taskQ.head? = some τ := (congrArg List.head? hq).trans h
    have hrun : runTask p mem clk' (looked clk τ s) =
        handle p mem clk' τ { looked clk τ s with taskQ := s.taskQ.tail } := by
      simp only [runTask, getTask_of_head hhead, hq]
    rw [hrun, ← looked_taskQ]
    exact handleLate_of_passes ((htail clk).trans hp) ((htail clk').trans (hagree hp))
  · rename_i hp
    simp only [runTask, getTask_of_head h]
    exact handleLate_of_not ((htail clk).trans (Bool.eq_false_iff.2 hp))

/-- A search at a node keeps what others rely on. -/
theorem NodeInv.look {Δ : List AodvDst} (h : NodeInv p s) (hlow : LowSeqs s)
    (hΔ : ∀ d ∈ Δ, Serves d s) (clk : Clock) (τ : Task) : Keeps p Δ s (looked clk τ s) := by
  unfold looked
  split
  · rename_i m _
    have hup : Upheld p clk (createTask .hello clk) Δ s (searched clk m.srcIp s) :=
      ((h.kept hlow hΔ _).search m.srcIp).upheld
    refine ⟨⟨hup.toOrdered, fun r hr => (hup.sound r hr).toPlain,
      ⟨h.retries.retries, h.retries.packets⟩, h.timers⟩, hup.serves, fun r hr hv hhop => ?_,
      .of_eq rfl⟩
    rcases (hup.sound r hr).indirect hv hhop with hstays | ⟨u, hu, -⟩
    · exact .inl hstays
    · exact absurd hu (by simp [Task.update, createTask])
  · exact h.keeps hΔ rfl rfl

/-! ## The network -/

namespace Mesh

variable {n : ℕ}

/-- What can happen in the network: a step as before, or a round of the thread of `v` whose handler
reads the clock twice. -/
inductive Turn (n : ℕ)
  | whole (a : Action n)
  | slow (v : Fin n) (mem : Mem) (clk clk' : Clock) (hears : List (Fin n))

variable (node : Fin n → Params)

/-- The network when the node `v` has looked for the node that asks. -/
def lookedAt (v : Fin n) (clk : Clock) (τ : Task) (s : Mesh n) : Mesh n :=
  { s with router := Function.update s.router v (looked clk τ (s.router v)) }

namespace Turn

def step : Turn n → Mesh n → Option (Mesh n)
  | .whole a, s => Mesh.step node a s
  | .slow v mem clk clk' hears, s =>
    (runTaskLate (node v) mem clk clk' (s.router v)).map fun t =>
      moved s v t (s.air ++ t.sent.flatMap (copies node v hears))

/-- The step keeps what others rely on, and a message that passes its check at the first reading
still passes at the second one. -/
def Careful (node : Fin n → Params) : Turn n → Mesh n → Prop
  | .whole a, s => a.Careful node s
  | .slow v mem clk clk' hears, s => ∀ τ ∈ (s.router v).taskQ.head?,
    if passes clk τ (s.router v) then
      passes clk' τ (s.router v) = true ∧ LowSeqs (s.router v) ∧
        Action.Careful node (.thread v mem clk' hears) (lookedAt v clk τ s)
    else Action.Careful node (.thread v mem clk hears) s

instance : ∀ (a : Turn n) (s : Mesh n), Decidable (a.Careful node s)
  | .whole a, s => inferInstanceAs (Decidable (a.Careful node s))
  | .slow v mem clk clk' hears, s => inferInstanceAs (Decidable (∀ τ ∈ (s.router v).taskQ.head?,
    if passes clk τ (s.router v) then
      passes clk' τ (s.router v) = true ∧ LowSeqs (s.router v) ∧
        Action.Careful node (.thread v mem clk' hears) (lookedAt v clk τ s)
    else Action.Careful node (.thread v mem clk hears) s))

end Turn

section Steps

variable {node} {s s' : Mesh n} {v : Fin n}

theorem Inv.look (hinj : Function.Injective fun v => (node v).myIp) (h : Inv node s)
    (hlow : LowSeqs (s.router v)) (clk : Clock) (τ : Task) : Inv node (lookedAt v clk τ s) := by
  have hk : Keeps (node v) (demands node s v) (s.router v) (looked clk τ (s.router v)) :=
    (h.nodes v).look hlow (h.served v) clk τ
  obtain ⟨l, hl⟩ := looked_eq clk τ (s.router v)
  have hsent : { looked clk τ (s.router v) with sent := [] } = looked clk τ (s.router v) := by
    rw [hl, ← h.quiet v]
  have hmoved : Mesh.moved s v (looked clk τ (s.router v)) s.air = lookedAt v clk τ s := by
    rw [Mesh.moved, hsent, lookedAt]
  rw [← hmoved]
  refine h.moved hinj hk ⟨fun τ' hτ' _ _ => .inl ?_, fun c hc => .inl hc⟩
  rwa [hl] at hτ'

/-- A round in which the handler reads the clock twice. -/
theorem Inv.slow {mem : Mem} {clk clk' : Clock} {hears : List (Fin n)}
    (hinj : Function.Injective fun v => (node v).myIp) (h : Inv node s)
    (hok : (Turn.slow v mem clk clk' hears).Careful node s)
    (hs : Turn.step node (.slow v mem clk clk' hears) s = some s') : Inv node s' := by
  cases hq : (s.router v).taskQ.head? with
  | none =>
    -- the thread sleeps
    have hnil : (s.router v).taskQ = [] := List.head?_eq_none_iff.1 hq
    have hsleeps : runTaskLate (node v) mem clk clk' (s.router v) =
        runTask (node v) mem clk (s.router v) := by
      simp only [runTask, runTaskLate, getTask, hnil]
    have hcare : Action.Careful node (.thread v mem clk hears) s := fun τ hτ => by
      rw [hq] at hτ
      cases hτ
    refine h.step hinj hcare ?_
    rw [← hs, Turn.step, hsleeps]
    rfl
  | some τ =>
    have hcare := hok τ hq
    split at hcare
    · rename_i hp
      obtain ⟨hp', hlow, hcare⟩ := hcare
      -- the round at the second reading, in the network after the search
      refine (h.look hinj hlow clk τ).step hinj hcare ?_
      rw [← hs]
      show Mesh.act node v (.thread mem clk') hears (lookedAt v clk τ s) = _
      rw [Turn.step, runTaskLate_eq hq fun _ => hp', if_pos hp, Mesh.act]
      simp only [lookedAt, Function.update_self, Aodv.step, Function.update_idem]
      rfl
    · rename_i hp
      refine h.step hinj hcare ?_
      rw [← hs, Turn.step, runTaskLate_eq hq fun hp' => absurd hp' hp, if_neg hp]
      rfl

theorem Inv.turn {a : Turn n} (hinj : Function.Injective fun v => (node v).myIp)
    (h : Inv node s) (hok : a.Careful node s) (hs : Turn.step node a s = some s') :
    Inv node s' := by
  cases a with
  | whole a => exact h.step hinj hok hs
  | slow v mem clk clk' hears => exact h.slow hinj hok hs

end Steps

/-! ## Runs -/

/-- The invariant holds along every careful run. -/
theorem along_inv (hp : ∀ v, (node v).AddressesDiffer)
    (hinj : Function.Injective fun v => (node v).myIp) {clk : Fin n → Clock} {s : Mesh n}
    (hinit : ∀ v, initModule (node v) (clk v) = some (s.router v)) (hair : s.air = [])
    {turns : List (Turn n)} (hok : AllSteps (Turn.step node) (Turn.Careful node) turns s) :
    Along (Turn.step node) (Inv node) turns s :=
  along_of_step (fun _ _ _ h hok hs => h.turn hinj hok hs) (.init node hp hinj hinit hair) hok

theorem loop_free (hp : ∀ v, (node v).AddressesDiffer)
    (hinj : Function.Injective fun v => (node v).myIp) (clk : Fin n → Clock) (s : Mesh n)
    (hinit : ∀ v, initModule (node v) (clk v) = some (s.router v)) (hair : s.air = [])
    (turns : List (Turn n)) (hok : AllSteps (Turn.step node) (Turn.Careful node) turns s) :
    Along (Turn.step node) (LoopFree node) turns s :=
  (along_inv node hp hinj hinit hair hok).mono fun _ h => h.loopFree

/-- The line of three nodes; the last message is handled by `v`, with two readings. -/
def lineTurns (v : Fin 3) : List (Turn 3) :=
  lineRun.dropLast.map .whole ++ [.slow v .plenty (clockAt 1800) (clockAt 1801) []]

theorem loop_free_lineRun : (∃ t, exec (Turn.step threeNodes) (lineTurns 0) loaded = some t ∧
      Edge threeNodes (peer 3) t 0 1 ∧ Edge threeNodes (peer 3) t 1 2) ∧
    Along (Turn.step threeNodes) (LoopFree threeNodes) (lineTurns 0) loaded := by
  have hrun : (exec (Turn.step threeNodes) (lineTurns 0) loaded).any (fun t =>
      decide (Edge threeNodes (peer 3) t 0 1 ∧ Edge threeNodes (peer 3) t 1 2)) = true := by
        decide +kernel
  obtain ⟨t, ht, hedges⟩ := (Option.any_eq_true _ _).1 hrun
  exact ⟨⟨t, ht, of_decide_eq_true hedges⟩,
    loop_free threeNodes threeNodes_differ threeNodes_injective
    (fun _ => clockAt 0) loaded loaded_init rfl (lineTurns 0) (by decide +kernel)⟩

/-- When the neighbour runs out behind the check of the newer request, node 0 refuses the route and
keeps the one through node 1, but node 1 hears of the request from node 0. -/
example : (exec (Turn.step threeNodes) (newerRun.map .whole ++
      .slow 0 .plenty (clockAt 4019) (clockAt 4020) [1] :: (arrives 0 1 4020 []).map .whole)
    loaded).any (fun t =>
      decide (Edge threeNodes (peer 3) t 0 1 ∧ Edge threeNodes (peer 3) t 1 0)) = true := by
  decide +kernel

/-- Node 1 has forgotten node 2, and takes up a route to it through node 0. -/
theorem not_loop_free_timeoutRun :
    ¬∀ (n : ℕ) (node : Fin n → Params), (∀ v, (node v).AddressesDiffer) →
    (Function.Injective fun v => (node v).myIp) → ∀ (clk : Fin n → Clock) (s : Mesh n),
    (∀ v, initModule (node v) (clk v) = some (s.router v)) → s.air = [] →
    ∀ turns, Along (Turn.step node) (LoopFree node) turns s := by
  intro h
  have hrun : (exec (Turn.step threeNodes) (timeoutRun.map .whole) loaded).any (fun t =>
      decide (Edge threeNodes (peer 3) t 0 1 ∧ Edge threeNodes (peer 3) t 1 0)) = true := by
        decide +kernel
  obtain ⟨t, ht, hedges⟩ := (Option.any_eq_true _ _).1 hrun
  have hfree : LoopFree threeNodes t := Along.reached (by
    rw [List.append_nil]
    exact h 3 threeNodes threeNodes_differ threeNodes_injective (fun _ => clockAt 0) loaded
      loaded_init rfl _) ht
  obtain ⟨hout, hback⟩ := of_decide_eq_true hedges
  exact not_acyclic_of_two hout hback (hfree (peer 3))

end Mesh

end MobileCloudCaching.Aodv
