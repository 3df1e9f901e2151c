import MobileCloudCaching.Aodv.Search

/-!
# What the handlers leave alone

The agenda of the module is what is still to be done: the timers, the tasks, the neighbours that may
time out and the packets that wait.  Writing routes and sending messages does not touch it, apart
from the packets that a new route releases.
-/

namespace MobileCloudCaching.Aodv

open Octets

variable {p : Params} {mem : Mem} {clk : Clock} {s t : Router}

/-- Timers, tasks, neighbours and queued packets. -/
def agenda (s : Router) : List Task × List Task × List Neigh × PacketQueue :=
  (s.timerQueue, s.taskQ, s.neighs, s.queue)

theorem agenda_iff : agenda t = agenda s ↔ t.timerQueue = s.timerQueue ∧ t.taskQ = s.taskQ ∧
    t.neighs = s.neighs ∧ t.queue = s.queue := by simp [agenda]

/-- A packet that comes in makes a task at most. -/
theorem packetIn_cases {a : Arrival} (h : (packetIn mem clk a s).2 = t) :
    ∃ n q, t = { s with overhead := n, taskQ := s.taskQ ++ q } ∧ (q = [] ∨
    q = [taskOfPacket clk a]) := by
  have hinsert : ∀ s₁ : Router, insertTask mem clk a s₁ = s₁ ∨
      insertTask mem clk a s₁ = { s₁ with taskQ := s₁.taskQ ++ [taskOfPacket clk a] } :=
        fun s₁ => by
    unfold insertTask
    split
    · exact .inr rfl
    · exact .inl rfl
  have hsame : ∀ n : U32, { s with overhead := n } =
      { s with overhead := n, taskQ := s.taskQ ++ [] } :=
    fun n => by rw [List.append_nil]
  have hvalid : ∃ b n, validAodvPacket a.msg s = (b, { s with overhead := n }) := by
    unfold validAodvPacket
    split <;> exact ⟨_, _, rfl⟩
  obtain ⟨b, n, hb⟩ := hvalid
  rw [packetIn, hb] at h
  cases b with
  | false => exact ⟨n, [], h.symm.trans (hsame n), .inl rfl⟩
  | true =>
    rcases hinsert { s with overhead := n } with hi | hi
    · exact ⟨n, [], (h.symm.trans hi).trans (hsame n), .inl rfl⟩
    · exact ⟨n, _, h.symm.trans hi, .inr rfl⟩

/-- The timer only moves tasks. -/
theorem timerQueueSignal_mem {τ : Task} :
    τ ∈ (timerQueueSignal clk s).timerQueue ++ (timerQueueSignal clk s).taskQ ↔
      τ ∈ s.timerQueue ++ s.taskQ := by
  have h : τ ∈ s.timerQueue ↔ τ ∈ s.timerQueue.takeWhile (fun t => timeBeforeEq t.time clk.now) ∨
      τ ∈ s.timerQueue.dropWhile fun t => timeBeforeEq t.time clk.now := by
    rw [← List.mem_append, List.takeWhile_append_dropWhile]
  simp only [timerQueueSignal, List.mem_append, h]
  tauto

/-- Start-up inserts two timers. -/
theorem initModule_agenda (h : initModule p clk = some s) :
    s.queue = {} ∧ s.taskQ = [] ∧ ∀ τ ∈ s.timerQueue, τ.type = .hello ∨ τ.type = .cleanup := by
  rw [initModule_eq] at h
  rw [← Option.some.inj h]
  refine ⟨rfl, rfl, fun τ hτ => ?_⟩
  rcases mem_insertTimer hτ with rfl | hτ
  · exact .inr rfl
  rcases mem_insertTimer hτ with rfl | hτ
  · exact .inl rfl
  · exact absurd hτ List.not_mem_nil

/-! ## Routes and messages -/

@[simp] theorem agenda_searched (ip : U32) : agenda (searched clk ip s) = agenda s := rfl

@[simp] theorem agenda_putRoute (r : Route) : agenda (putRoute r s) = agenda s := rfl

@[simp] theorem agenda_localBroadcast (ttl : Byte) (msg : Message) :
    agenda (localBroadcast ttl msg s) = agenda s := by
  unfold localBroadcast
  split <;> rfl

@[simp] theorem agenda_sendMessage (dst : U32) (ttl : Byte) (msg : Message) :
    agenda (sendMessage p clk dst ttl msg s) = agenda s := by
  unfold sendMessage
  simp only [findAodvRoute_eq]
  split
  · rfl
  · split
    · rfl
    · split <;> rfl

@[simp] theorem agenda_sendRerr (ok : Bool) (bad : List AodvDst) :
    agenda (sendRerr ok bad s) = agenda s := by
  unfold sendRerr
  split
  · exact agenda_localBroadcast _ _
  · rfl

@[simp] theorem agenda_genRerr (brkDstIp : U32) :
    agenda (genRerr mem clk brkDstIp s) = agenda s := by
  unfold genRerr
  dsimp only
  split
  · split
    · rfl
    · exact agenda_sendRerr _ _
  · rfl

theorem createAodvRoute_some {ok : Bool} {ip : U32} {r : Route}
    (h : createAodvRoute ok ip s = some (some r, t)) :
    ok = true ∧ r = newRoute s.nextPtr ip ∧ t = { s with
      nextPtr := s.nextPtr + 1
      routes := if ip = 0 then s.routes else placeRoute r s.routes } := by
  unfold createAodvRoute at h
  split at h
  · refine ⟨‹ok = true›, ?_⟩
    by_cases hip : ip = 0
    · simp only [hip, if_true, Option.some.injEq, Prod.mk.injEq] at h ⊢
      exact ⟨h.1.symm, h.2.symm⟩
    · simp only [if_neg hip, insertAodvRoute] at h ⊢
      split at h
      · simp only [Option.map_some, Option.some.injEq, Prod.mk.injEq] at h
        exact ⟨h.1.symm, by rw [← h.2, h.1]⟩
      · cases h
  · simp at h

theorem createAodvRoute_none {ok : Bool} {ip : U32} (h : createAodvRoute ok ip s = some (none, t)) :
    ok = false ∧ t = s := by
  unfold createAodvRoute at h
  split at h
  · dsimp only at h
    split at h
    · simp at h
    · simp at h
  · simp only [Option.some.injEq, Prod.mk.injEq, true_and] at h
    exact ⟨by simpa using ‹¬ok = true›, h.symm⟩

theorem agenda_createAodvRoute {ok : Bool} {ip : U32} {r : Option Route}
    (h : createAodvRoute ok ip s = some (r, t)) : agenda t = agenda s := by
  cases r with
  | none => rw [(createAodvRoute_none h).2]
  | some r => rw [(createAodvRoute_some h).2.2]; rfl

theorem removeAodvRoute_some {ptr : ℕ} (h : removeAodvRoute ptr s = some t) :
    t = { s with routes := s.routes.filter fun r => r.ptr != ptr } := by
  unfold removeAodvRoute at h
  split at h
  · exact (Option.some.inj h).symm
  · cases h

/-! ## Updating a route -/

/-- The tests of `update_aodv_route` that decide whether the route is written. -/
def Update.accepted (u : Update) (clk : Clock) (s : Router) : Bool :=
  validAodvNeigh clk u.nextHop s && (foundRoute clk u.ip s).all fun r => !u.refused r

theorem Update.accepted_congr {u : Update} (hr : t.routes = s.routes) (hn : t.neighs = s.neighs) :
    u.accepted clk t = u.accepted clk s := by
  rw [accepted, accepted, foundRoute_congr hr, validAodvNeigh, validAodvNeigh, findAodvNeigh,
    findAodvNeigh, hn]

/-- What `update_aodv_route` does: nothing, or it writes the entry that it finds or makes. -/
theorem updateAodvRoute_cases {ok : Bool} {u : Update} (h : updateAodvRoute ok clk u s = some t) :
    (u.accepted clk s = false ∨ foundRoute clk u.ip s = none ∧ ok = false) ∧
        t = searched clk u.ip s ∨
      u.accepted clk s = true ∧
        ((∃ r, foundRoute clk u.ip s = some r ∧ t = installRoute clk u r (searched clk u.ip s)) ∨
          foundRoute clk u.ip s = none ∧ ∃ r s₁,
            createAodvRoute ok u.ip (searched clk u.ip s) = some (some r, s₁) ∧
              t = installRoute clk u r s₁) := by
  unfold updateAodvRoute at h
  have hv : validAodvNeigh clk u.nextHop (searched clk u.ip s) = validAodvNeigh clk u.nextHop s :=
    rfl
  simp only [findAodvRoute_eq, hv] at h
  cases hvalid : validAodvNeigh clk u.nextHop s with
  | false =>
    simp only [hvalid, Bool.not_false, if_true] at h
    exact .inl ⟨.inl (by simp [Update.accepted, hvalid]), (Option.some.inj h).symm⟩
  | true =>
    simp only [hvalid, Bool.not_true, Bool.false_eq_true, if_false] at h
    cases hf : foundRoute clk u.ip s with
    | some r =>
      simp only [hf] at h
      cases hr : u.refused r with
      | true =>
        rw [hr, if_pos rfl] at h
        exact .inl ⟨.inl (by simp [Update.accepted, hf, hr]), (Option.some.inj h).symm⟩
      | false =>
        rw [hr, if_neg Bool.false_ne_true] at h
        exact .inr ⟨by simp [Update.accepted, hvalid, hf, hr],
          .inl ⟨r, rfl, (Option.some.inj h).symm⟩⟩
    | none =>
      simp only [hf] at h
      obtain ⟨⟨r, s₁⟩, hc, h⟩ := Option.bind_eq_some_iff.1 h
      cases r with
      | none =>
        obtain ⟨hok, rfl⟩ := createAodvRoute_none hc
        exact .inl ⟨.inr ⟨rfl, hok⟩, (Option.some.inj h).symm⟩
      | some r =>
        exact .inr ⟨by simp [Update.accepted, hvalid, hf], .inr ⟨rfl, r, s₁, hc,
          (Option.some.inj h).symm⟩⟩

@[simp] theorem agenda_installRoute (u : Update) (r : Route) :
    agenda (installRoute clk u r s) = agenda (ipqSendIp u.ip s) := rfl

theorem agenda_ipqSendIp (ip : U32) (h : agenda t = agenda s) :
    agenda (ipqSendIp ip t) = agenda (ipqSendIp ip s) := by
  obtain ⟨h₁, h₂, h₃, h₄⟩ := agenda_iff.1 h
  simp [agenda, ipqSendIp, h₁, h₂, h₃, h₄]

theorem agenda_updateAodvRoute {ok : Bool} {u : Update} (hok : ok = true)
    (h : updateAodvRoute ok clk u s = some t) :
    agenda t = agenda (if u.accepted clk s then ipqSendIp u.ip s else s) := by
  rcases updateAodvRoute_cases h with
    ⟨hr | ⟨-, hok'⟩, rfl⟩ | ⟨ha, ⟨r, -, rfl⟩ | ⟨-, r, s₁, hc, rfl⟩⟩
  · rw [hr]; rfl
  · rw [hok] at hok'; exact Bool.noConfusion hok'
  · rw [ha]; exact (agenda_installRoute u r).trans (agenda_ipqSendIp _ (agenda_searched _))
  · rw [ha]
    exact (agenda_installRoute u r).trans
      (agenda_ipqSendIp _ ((agenda_createAodvRoute hc).trans (agenda_searched _)))

theorem agenda_updateAodvRoute_or {ok : Bool} {u : Update}
    (h : updateAodvRoute ok clk u s = some t) :
    agenda t = agenda s ∨ agenda t = agenda (ipqSendIp u.ip s) := by
  rcases updateAodvRoute_cases h with ⟨-, rfl⟩ | ⟨-, ⟨r, -, rfl⟩ | ⟨-, r, s₁, hc, rfl⟩⟩
  · exact .inl rfl
  · exact .inr rfl
  · exact .inr ((agenda_installRoute u r).trans
      (agenda_ipqSendIp _ ((agenda_createAodvRoute hc).trans (agenda_searched _))))

/-! ## Handlers that write routes only -/

theorem agenda_breakListed {srcIp : U32} {l out : List AodvDst} {s : Router} :
    agenda (breakListed mem clk srcIp l out s).2.2 = agenda s := by
  induction l generalizing out s with
  | nil => rfl
  | cons d l ih =>
    rw [breakListed]
    simp only [findAodvRoute_eq]
    split
    · exact ih
    · split
      · split
        · refine ih.trans ?_
          split <;> rfl
        · rfl
      · exact ih

theorem agenda_recvRerr {τ : Task} {m : Rerr} (h : recvRerr mem clk τ m s = some t) :
    agenda t = agenda s := by
  unfold recvRerr at h
  split at h
  · rcases hb : breakListed mem clk τ.srcIp (m.dsts.take m.dstCount.toNat) [] s with ⟨done, out, s₁⟩
    have hs₁ : agenda s₁ = agenda s := by
      have hloop : agenda (breakListed mem clk τ.srcIp (m.dsts.take m.dstCount.toNat) [] s).2.2 =
        agenda s := agenda_breakListed
      rwa [hb] at hloop
    simp only [hb] at h
    split at h
    · rw [← Option.some.inj h, agenda_sendRerr, hs₁]
    · rw [← Option.some.inj h, hs₁]
  · cases h

theorem agenda_flushRoutes {l : List Route} {s : Router} (h : flushRoutes clk l s = some t) :
    agenda t = agenda s := by
  induction l generalizing s with
  | nil => rw [← Option.some.inj h]
  | cons r l ih =>
    obtain ⟨s₁, h₁, h⟩ := Option.bind_eq_some_iff.1 h
    rw [ih h]
    unfold flushRoute at h₁
    split at h₁
    · split at h₁
      · rw [← Option.some.inj h₁]; rfl
      · rw [removeAodvRoute_some h₁]; rfl
    · rw [← Option.some.inj h₁]

/-! ## Requests and replies -/

theorem agenda_genRrep {srcIp dstIp : U32} (h : genRrep p mem clk srcIp dstIp s = some t) :
    agenda t = agenda s := by
  unfold genRrep at h
  simp only [findAodvRoute_eq] at h
  split at h
  · rw [← Option.some.inj h, agenda_searched]
  · split at h
    · rw [← Option.some.inj h, agenda_searched, agenda_searched]
    · obtain ⟨r, -, h⟩ := Option.bind_eq_some_iff.1 h
      rw [← Option.some.inj h, sendRrep]
      split
      · rw [agenda_sendMessage, agenda_searched, agenda_searched]
      · rw [agenda_searched, agenda_searched]

theorem agenda_createGatewayRoute {ok : Bool} {ip : U32}
    (h : createGatewayRoute ok clk ip s = some t) :
    agenda t = agenda s := by
  obtain ⟨⟨r, s₁⟩, hc, h⟩ := Option.bind_eq_some_iff.1 h
  cases r with
  | none => cases h
  | some r =>
    obtain ⟨r₁, -, h⟩ := Option.bind_eq_some_iff.1 h
    rw [← Option.some.inj h, agenda_putRoute, agenda_createAodvRoute hc]

theorem agenda_replyToRreq {m : Rreq} {b : Bool} (h : replyToRreq p mem clk m s = some (b, t)) :
    agenda t = agenda s := by
  have hcreate : ∀ {s₁}, (createGatewayRoute (mem .route 1) clk m.dstIp s₁).map
      (fun s => (true, s)) =
      some (b, t) → agenda t = agenda s₁ := fun h => by
    obtain ⟨s₂, hc, he⟩ := Option.map_eq_some_iff.1 h
    rw [← (Prod.mk.inj he).2, agenda_createGatewayRoute hc]
  have hsame : ∀ {s₁} {b' : Bool}, some (b', s₁) = some (b, t) → agenda s₁ = agenda s →
      agenda t = agenda s := fun h hs => by
    rw [← (Prod.mk.inj (Option.some.inj h)).2, hs]
  unfold replyToRreq at h
  simp only [findAodvRoute_eq] at h
  split at h
  · split at h
    · split at h
      · exact (hcreate h).trans (agenda_searched _)
      · exact hsame h rfl
    · split at h
      · exact hsame h rfl
      · split at h
        · exact (hcreate h).trans (agenda_searched _)
        · exact hsame h rfl
  · split at h
    · exact hsame h rfl
    · split at h
      · refine hsame h ?_
        split <;> rfl
      · exact hsame h rfl

theorem agenda_answerRreq {τ : Task} {m : Rreq} (h : answerRreq p mem clk τ m s = some t) :
    agenda t = agenda s := by
  obtain ⟨⟨b, s₁⟩, hr, h⟩ := Option.bind_eq_some_iff.1 h
  cases b with
  | true => rw [agenda_genRrep h, agenda_replyToRreq hr]
  | false => rw [← Option.some.inj h, agenda_localBroadcast, agenda_replyToRreq hr]

/-- A request that goes further than `check_rreq` has been preceded by a search at most. -/
theorem recvRreq_cases {τ : Task} {m : Rreq} (h : recvRreq p mem clk τ m s = some t) :
    t = s ∨ t = searched clk m.srcIp s ∨ validAodvNeigh clk τ.srcIp s = true ∧
      acceptRreq p mem clk τ m (searched clk m.srcIp s) = some t := by
  unfold recvRreq at h
  by_cases httl : τ.ttl ≤ 1
  · rw [if_pos httl] at h
    exact .inl (Option.some.inj h).symm
  · rw [if_neg httl, checkRreq] at h
    by_cases hid : (findFloodId clk m.srcIp m.rreqId s.floodIdQueue).isSome = true
    · rw [if_pos hid] at h
      exact .inl (Option.some.inj h).symm
    · rw [if_neg hid, findAodvRoute_eq] at h
      dsimp only at h
      split at h
      · rename_i heq
        rw [← (Prod.mk.inj heq).2] at h
        exact .inr (.inr ⟨(Prod.mk.inj heq).1, h⟩)
      · rename_i heq
        rw [← (Prod.mk.inj heq).2] at h
        exact .inr (.inl (Option.some.inj h).symm)

/-- A request releases packets at most. -/
theorem agenda_recvRreq {τ : Task} {m : Rreq} (h : recvRreq p mem clk τ m s = some t) :
    agenda t = agenda s ∨ agenda t = agenda (ipqSendIp m.srcIp s) := by
  rcases recvRreq_cases h with rfl | rfl | ⟨-, h⟩
  · exact .inl rfl
  · exact .inl rfl
  · obtain ⟨s₁, hu, h⟩ := Option.bind_eq_some_iff.1 h
    have hs₁ : agenda t = agenda s₁ := by
      rw [agenda_answerRreq h]
      split <;> rfl
    rw [hs₁]
    exact agenda_updateAodvRoute_or hu

theorem agenda_forwardRrep {m : Rrep} : agenda (forwardRrep p clk m s) = agenda s := by
  unfold forwardRrep
  simp only [findAodvRoute_eq]
  split
  · rfl
  · split
    · rfl
    · rw [agenda_sendMessage, agenda_searched]

/-- A reply is a hello, is ignored, or stops the repetition of the request and updates a route. -/
theorem recvRrep_cases {τ : Task} {m : Rrep} (h : recvRrep p mem clk τ m s = some t) :
    m.srcIp = m.dstIp ∧ recvHello mem clk τ m { s with overhead := s.overhead - 1 } = some t ∨
      m.srcIp ≠ m.dstIp ∧
        (validAodvNeigh clk τ.srcIp s = false ∧ t = s ∨
          validAodvNeigh clk τ.srcIp s = true ∧ ∃ s₁, t = forwardRrep p clk m s₁ ∧
            updateAodvRoute (mem .route 0) clk (m.update τ) (deleteTimer m.dstIp .resendRreq s) =
              some s₁) := by
  unfold recvRrep at h
  by_cases hs : m.srcIp = m.dstIp
  · rw [if_pos hs] at h
    exact .inl ⟨hs, h⟩
  · rw [if_neg hs, checkRrep] at h
    cases hv : validAodvNeigh clk τ.srcIp s with
    | false =>
      rw [hv, Bool.not_false, if_pos rfl] at h
      exact .inr ⟨hs, .inl ⟨rfl, (Option.some.inj h).symm⟩⟩
    | true =>
      rw [hv, Bool.not_true, if_neg Bool.false_ne_true] at h
      obtain ⟨s₁, hu, ht⟩ := Option.map_eq_some_iff.1 h
      exact .inr ⟨hs, .inr ⟨rfl, s₁, ht.symm, hu⟩⟩

/-! ## Hellos and neighbours -/

theorem ip_of_findAodvNeigh {ip : U32} {n : Neigh}
    (h : findAodvNeigh ip s = some n) : n.ip = ip := by
  simpa using List.find?_some h

theorem createAodvNeigh_some {ok : Bool} {ip : U32} {dev : Option Dev} {n : Neigh}
    (h : createAodvNeigh ok ip dev s = some (n, t)) :
    ok = true ∧ n = { ip := ip, lifetime := 0, dev := dev, validLink := true } ∧
      ((s.neighs.dropWhile fun x => decide (x.ip < ip)).head?.any fun x => x.ip == ip) = false ∧
      t = { s with neighs := s.neighs.takeWhile (fun x => decide (x.ip < ip)) ++
        n :: s.neighs.dropWhile fun x => decide (x.ip < ip) } := by
  unfold createAodvNeigh at h
  dsimp only at h
  split at h
  · cases h
  · split at h
    · obtain ⟨rfl, rfl⟩ := Prod.mk.inj (Option.some.inj h)
      exact ⟨‹ok = true›, rfl, Bool.eq_false_iff.2 ‹_›, rfl⟩
    · cases h

theorem isSome_createAodvNeigh {ok : Bool} {ip : U32} {dev : Option Dev} (h : t.neighs = s.neighs) :
    (createAodvNeigh ok ip dev t).isSome = (createAodvNeigh ok ip dev s).isSome := by
  unfold createAodvNeigh
  rw [h]
  dsimp only
  split_ifs <;> rfl

/-- A hello is heard from a neighbour that is on the list or has just been entered, or it has no
effect. -/
theorem recvHello_cases {τ : Task} {m : Rrep} (h : recvHello mem clk τ m s = some t) :
    (findAodvNeigh m.dstIp s = none ∧ createAodvNeigh (mem .neigh 0) m.dstIp τ.dev s = none ∧
    t = s) ∨
      ∃ n s₁, n.ip = m.dstIp ∧ heardHello mem clk m n s₁ = some t ∧
        (findAodvNeigh m.dstIp s = some n ∧ s₁ = s ∨
          findAodvNeigh m.dstIp s = none ∧
            createAodvNeigh (mem .neigh 0) m.dstIp τ.dev s = some (n, s₁)) := by
  unfold recvHello at h
  cases hf : findAodvNeigh m.dstIp s with
  | some n =>
    rw [hf] at h
    exact .inr ⟨n, s, ip_of_findAodvNeigh hf, h, .inl ⟨rfl, rfl⟩⟩
  | none =>
    rw [hf] at h
    cases hc : createAodvNeigh (mem .neigh 0) m.dstIp τ.dev s with
    | none =>
      rw [hc] at h
      exact .inl ⟨rfl, rfl, (Option.some.inj h).symm⟩
    | some q =>
      obtain ⟨n, s₁⟩ := q
      rw [hc] at h
      have hn := (createAodvNeigh_some hc).2.1
      exact .inr ⟨n, s₁, by rw [hn], h, .inr ⟨rfl, rfl⟩⟩

/-- The neighbour as a hello leaves it. -/
def Neigh.heard (n : Neigh) (clk : Clock) (m : Rrep) : Neigh :=
  { n with lifetime := m.lifetime.toNat + clk.now + 20 }

/-- A hello restarts the timer of the neighbour. -/
def restartTimer (mem : Mem) (clk : Clock) (ip : U32) (s : Router) : Router :=
  insertTimer (mem .task 0) clk .neighbor neighborTimeout ip (deleteTimer ip .neighbor s)

theorem agenda_heardHello {m : Rrep} {n : Neigh} (h : heardHello mem clk m n s = some t) :
    agenda t = agenda (putNeigh (n.heard clk m) (restartTimer mem clk n.ip s)) := by
  unfold heardHello updateAodvNeigh at h
  dsimp only at h
  split at h
  · unfold updateAodvNeighRoute at h
    simp only [findAodvRoute_eq] at h
    split at h
    · rw [← Option.some.inj h]; rfl
    · obtain ⟨⟨r, s₁⟩, hc, h⟩ := Option.bind_eq_some_iff.1 h
      cases r with
      | none => cases h
      | some r =>
        rw [← Option.some.inj h]
        exact (agenda_createAodvRoute hc).trans (agenda_searched _)
  · rw [← Option.some.inj h]; rfl

/-- A neighbour that is not on the list is not dropped again. -/
theorem deleteAodvNeigh_of_not_listed {ip : U32} (hn : (s.neighs.any fun n => n.ip == ip) = false)
    (h : deleteAodvNeigh mem clk ip s = some t) : t = s := by
  rw [deleteAodvNeigh, hn, if_neg Bool.false_ne_true] at h
  exact (Option.some.inj h).symm

theorem agenda_deleteAodvNeigh {ip : U32} (hn : (s.neighs.any fun n => n.ip == ip) = true)
    (h : deleteAodvNeigh mem clk ip s = some t) :
    agenda t =
      agenda (deleteTimer ip .neighbor { s with neighs := s.neighs.eraseP fun n =>
        n.ip == ip }) := by
  rw [deleteAodvNeigh, if_pos hn] at h
  simp only [findAodvRoute_eq] at h
  split at h
  · rw [← Option.some.inj h]; rfl
  · split at h
    · obtain ⟨r, -, h⟩ := Option.bind_eq_some_iff.1 h
      have hgen : ∀ {ip' : U32} {s₁ : Router}, agenda (genRerr mem clk ip' s₁) = agenda s₁ :=
        agenda_genRerr _
      split at h
      · rw [← Option.some.inj h, agenda_putRoute, hgen]; rfl
      · rw [removeAodvRoute_some h]
        exact hgen
    · rw [← Option.some.inj h]; rfl

/-! ## Broadcasting requests -/

theorem broadcastRreq_of_none {srcIp dstIp : U32} {n : ℕ} (h : foundRoute clk srcIp s = none) :
    broadcastRreq mem clk srcIp dstIp n s = searched clk srcIp (searched clk dstIp s) := by
  unfold broadcastRreq
  simp only [findAodvRoute_eq, foundRoute_searched, h]

/-- The entry of the source of a request, with its new numbers. -/
def Route.numbered (r : Route) : Route := { r with rreqId := r.rreqId + 1, seq := r.seq + 1 }

/-- The request that goes out. -/
def outRreq (clk : Clock) (srcIp dstIp : U32) (r : Route) (s : Router) : Rreq where
  metric := 0
  rreqId := r.rreqId
  dstIp := dstIp
  dstSeq := match foundRoute clk dstIp s with
    | none => 0
    | some r => r.seq
  srcIp := srcIp
  srcSeq := r.seq

theorem broadcastRreq_of_some {srcIp dstIp : U32} {n : ℕ} {r : Route}
    (h : foundRoute clk srcIp s = some r) :
    broadcastRreq mem clk srcIp dstIp n s =
      if mem .floodId 0 then
        localBroadcast (BitVec.ofNat 8 netDiameter) (.rreq (outRreq clk srcIp dstIp r.numbered s))
          (insertRreqTimer (mem .task 0) clk srcIp dstIp n
            (insertFloodId srcIp dstIp r.numbered.rreqId (clk.now + pathDiscoveryTime)
              (putRoute r.numbered (searched clk srcIp (searched clk dstIp s)))))
      else putRoute r.numbered (searched clk srcIp (searched clk dstIp s)) := by
  unfold broadcastRreq
  simp only [findAodvRoute_eq, foundRoute_searched, h]
  rfl

theorem agenda_insertRreqTimer {ok : Bool} {srcIp dstIp : U32} {n : ℕ} (h : agenda t = agenda s) :
    agenda (insertRreqTimer ok clk srcIp dstIp n t) =
      agenda (insertRreqTimer ok clk srcIp dstIp n s) := by
  obtain ⟨h₁, h₂, h₃, h₄⟩ := agenda_iff.1 h
  cases ok <;> simp [agenda, insertRreqTimer, queueTimer, h₁, h₂, h₃, h₄]

/-- A request leaves its timer behind, if it gets as far. -/
theorem agenda_broadcastRreq {srcIp dstIp : U32} {n : ℕ} :
    agenda (broadcastRreq mem clk srcIp dstIp n s) =
      agenda (insertRreqTimer ((foundRoute clk srcIp s).isSome && mem .floodId 0 && mem .task 0) clk
        srcIp dstIp n s) := by
  cases h : foundRoute clk srcIp s with
  | none =>
    rw [broadcastRreq_of_none h]
    rfl
  | some r =>
    rw [broadcastRreq_of_some h]
    cases mem .floodId 0 with
    | false => rfl
    | true =>
      rw [if_pos rfl, agenda_localBroadcast]
      exact agenda_insertRreqTimer rfl

/-! ## Outgoing packets -/

/-- The tests of `output_handler` that lead to `gen_rreq`: the packet is queued. -/
def unrouted (p : Params) (clk : Clock) (daddr : U32) (s : Router) : Bool :=
  daddr != broadcastIp && !(p.gateway && !aodvSubnetTest p daddr) &&
    (foundRoute clk daddr s).all fun r => !r.routeValid

theorem output_of_unrouted {daddr : U32} (h : unrouted p clk daddr s = true) :
    output p mem clk daddr s =
      { genRreq mem clk p.myIp daddr (searched clk daddr s) with
        queue := s.queue.enqueue { postRouting := true, daddr := daddr } } := by
  simp only [unrouted, Bool.and_eq_true, bne_iff_ne, Bool.not_eq_true'] at h
  obtain ⟨⟨hb, hg⟩, hr⟩ := h
  have hq : (genRreq mem clk p.myIp daddr (searched clk daddr s)).queue = s.queue := by
    unfold genRreq
    split
    · rfl
    · split
      · rw [(agenda_iff.1 agenda_broadcastRreq).2.2.2, insertRreqTimer]
        split <;> rfl
      · rfl
  have hh : outputHandler p mem clk daddr s =
      (.queue, genRreq mem clk p.myIp daddr (searched clk daddr s)) := by
    unfold outputHandler
    rw [if_neg hb, if_neg (by simp [hg]), findAodvRoute_eq]
    cases hf : foundRoute clk daddr s with
    | none => rfl
    | some r =>
      have hv : r.routeValid = false := by simpa [hf] using hr
      simp [hv]
  rw [output, hh]
  simp only [hq]

theorem output_of_routed (mem : Mem) {daddr : U32} (h : unrouted p clk daddr s = false) :
    output p mem clk daddr s = s ∨ output p mem clk daddr s = searched clk daddr s ∨
      ∃ r, foundRoute clk daddr s = some r ∧ r.routeValid = true ∧ r.selfRoute = false ∧
        output p mem clk daddr s =
          putRoute { r with lifetime := clk.now + activeRouteTimeout } (searched clk daddr s) := by
  by_cases hb : daddr = broadcastIp
  · exact .inl (by rw [output, outputHandler, if_pos hb])
  by_cases hg : (p.gateway && !aodvSubnetTest p daddr) = true
  · exact .inl (by rw [output, outputHandler, if_neg hb, if_pos hg])
  have hall : ((foundRoute clk daddr s).all fun r => !r.routeValid) = false := by
    simpa [unrouted, hb, hg] using h
  obtain ⟨r, hf, hv⟩ : ∃ r, foundRoute clk daddr s = some r ∧ r.routeValid = true := by
    cases hf : foundRoute clk daddr s with
    | none => simp [hf] at hall
    | some r => exact ⟨r, rfl, by simpa [hf] using hall⟩
  have ho : output p mem clk daddr s = if r.selfRoute then searched clk daddr s
      else putRoute { r with lifetime := clk.now + activeRouteTimeout } (searched clk daddr s) := by
    rw [output, outputHandler, if_neg hb, if_neg hg, findAodvRoute_eq]
    simp [hf, hv]
  rw [ho]
  by_cases hs : r.selfRoute = true
  · exact .inr (.inl (if_pos hs))
  · exact .inr (.inr ⟨r, hf, hv, Bool.eq_false_iff.2 hs, if_neg hs⟩)

theorem agenda_output_of_routed {daddr : U32} (h : unrouted p clk daddr s = false) :
    agenda (output p mem clk daddr s) = agenda s := by
  rcases output_of_routed mem h with h | h | ⟨r, -, -, -, h⟩ <;> rw [h] <;> rfl

end MobileCloudCaching.Aodv
