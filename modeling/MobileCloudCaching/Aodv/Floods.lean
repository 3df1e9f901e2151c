import MobileCloudCaching.Aodv.Agenda

/-!
# What the handlers note of floods

The flood ids and the requests that the node has sent.  They change together: a request is
broadcast after its flood id has been inserted, and nothing but `broadcastRreq`, `recv_rreq`
and the clean-up task touches either.
-/

namespace MobileCloudCaching.Aodv

open Octets

variable {p : Params} {mem : Mem} {clk : Clock} {s t : Router} {τ : Task}

/-- The request in a message. -/
def Message.request : Message → Option Rreq
  | .rreq m => some m
  | _ => none

/-- The requests among the datagrams sent. -/
def requests (s : Router) : List Rreq := s.sent.filterMap fun g => g.msg.request

/-- The flood ids and the requests sent. -/
def floods (s : Router) : List FloodId × List Rreq := (s.floodIdQueue, requests s)

theorem floods_iff : floods t = floods s ↔ t.floodIdQueue = s.floodIdQueue ∧
    requests t = requests s := by
  simp [floods]

/-! ## Routes and messages -/

@[simp] theorem floods_searched (ip : U32) : floods (searched clk ip s) = floods s := rfl

@[simp] theorem floods_putRoute (r : Route) : floods (putRoute r s) = floods s := rfl

@[simp] theorem floods_insertTimer {ok : Bool} {type : TaskType} {delay : ℕ} {ip : U32} :
    floods (insertTimer ok clk type delay ip s) = floods s := by cases ok <;> rfl

@[simp] theorem floods_insertRreqTimer {ok : Bool} {srcIp dstIp : U32} {n : ℕ} :
    floods (insertRreqTimer ok clk srcIp dstIp n s) = floods s := by cases ok <;> rfl

/-- Only requests count. -/
theorem floods_send {g : List Datagram} (hg : ∀ d ∈ g, d.msg.request = none)
    (hq : t.floodIdQueue = s.floodIdQueue) (hs : t.sent = s.sent ++ g) : floods t = floods s := by
  refine floods_iff.2 ⟨hq, ?_⟩
  rw [requests, hs, List.filterMap_append, List.filterMap_eq_nil_iff.2 hg, List.append_nil]
  rfl

theorem floods_localBroadcast {ttl : Byte} {msg : Message} (h : msg.request = none) :
    floods (localBroadcast ttl msg s) = floods s := by
  unfold localBroadcast
  split
  · rfl
  · exact floods_send (List.forall_mem_singleton.2 h) rfl rfl

theorem floods_sendMessage {dst : U32} {ttl : Byte} {msg : Message} (h : msg.request = none) :
    floods (sendMessage p clk dst ttl msg s) = floods s := by
  unfold sendMessage
  simp only [findAodvRoute_eq]
  split
  · rfl
  · split
    · rfl
    · split
      · exact floods_send (List.forall_mem_singleton.2 h) rfl rfl
      · rfl

theorem floods_sendRerr {ok : Bool} {bad : List AodvDst} :
    floods (sendRerr ok bad s) = floods s := by
  unfold sendRerr
  split
  · exact floods_localBroadcast rfl
  · rfl

theorem floods_genRerr {ip : U32} : floods (genRerr mem clk ip s) = floods s := by
  unfold genRerr
  dsimp only
  split
  · split
    · rfl
    · exact floods_sendRerr
  · rfl

theorem floods_createAodvRoute {ok : Bool} {ip : U32} {r : Option Route}
    (h : createAodvRoute ok ip s = some (r, t)) : floods t = floods s := by
  cases r with
  | none => rw [(createAodvRoute_none h).2]
  | some r => rw [(createAodvRoute_some h).2.2]; rfl

theorem floods_updateAodvRoute {ok : Bool} {u : Update} (h : updateAodvRoute ok clk u s = some t) :
    floods t = floods s := by
  rcases updateAodvRoute_cases h with ⟨-, rfl⟩ | ⟨-, ⟨r, -, rfl⟩ | ⟨-, r, s₁, hc, rfl⟩⟩
  · rfl
  · rfl
  · exact (floods_createAodvRoute hc : floods s₁ = _)

/-! ## Handlers that send no request -/

theorem floods_breakListed {srcIp : U32} {l out : List AodvDst} {s : Router} :
    floods (breakListed mem clk srcIp l out s).2.2 = floods s := by
  induction l generalizing out s with
  | nil => rfl
  | cons d l ih =>
    rw [breakListed]
    simp only [findAodvRoute_eq]
    split
    · exact ih
    · split
      · split
        · refine ih.trans ?_
          split <;> rfl
        · rfl
      · exact ih

theorem floods_recvRerr {m : Rerr} (h : recvRerr mem clk τ m s = some t) : floods t = floods s := by
  unfold recvRerr at h
  split at h
  · rcases hb : breakListed mem clk τ.srcIp (m.dsts.take m.dstCount.toNat) [] s with ⟨done, out, s₁⟩
    have hs₁ : floods s₁ = floods s := by
      have hloop : floods (breakListed mem clk τ.srcIp (m.dsts.take m.dstCount.toNat) [] s).2.2 =
        floods s := floods_breakListed
      rwa [hb] at hloop
    simp only [hb] at h
    split at h
    · rw [← Option.some.inj h, floods_sendRerr, hs₁]
    · rw [← Option.some.inj h, hs₁]
  · cases h

theorem floods_flushRoutes {l : List Route} {s : Router} (h : flushRoutes clk l s = some t) :
    floods t = floods s := by
  induction l generalizing s with
  | nil => rw [← Option.some.inj h]
  | cons r l ih =>
    obtain ⟨s₁, h₁, h⟩ := Option.bind_eq_some_iff.1 h
    rw [ih h]
    unfold flushRoute at h₁
    split at h₁
    · split at h₁
      · rw [← Option.some.inj h₁]; rfl
      · rw [removeAodvRoute_some h₁]; rfl
    · rw [← Option.some.inj h₁]

theorem floods_forwardRrep {m : Rrep} : floods (forwardRrep p clk m s) = floods s := by
  unfold forwardRrep
  simp only [findAodvRoute_eq]
  split
  · rfl
  · split
    · rfl
    · exact floods_sendMessage rfl

theorem floods_heardHello {m : Rrep} {n : Neigh} (h : heardHello mem clk m n s = some t) :
    floods t = floods s := by
  have hput : floods (putNeigh (n.heard clk m) (restartTimer mem clk n.ip s)) = floods s :=
    (floods_insertTimer : floods (insertTimer _ _ _ _ _ (deleteTimer n.ip .neighbor s)) = _)
  unfold heardHello updateAodvNeigh at h
  dsimp only at h
  split at h
  · unfold updateAodvNeighRoute at h
    simp only [findAodvRoute_eq] at h
    split at h
    · rw [← Option.some.inj h]
      exact hput
    · obtain ⟨⟨r, s₁⟩, hc, h⟩ := Option.bind_eq_some_iff.1 h
      cases r with
      | none => cases h
      | some r =>
        rw [← Option.some.inj h]
        exact ((floods_createAodvRoute hc).trans (floods_searched _)).trans (hput)
  · rw [← Option.some.inj h]
    exact hput

theorem floods_recvRrep {m : Rrep} (h : recvRrep p mem clk τ m s = some t) :
    floods t = floods s := by
  rcases recvRrep_cases h with ⟨-, h⟩ | ⟨-, ⟨-, rfl⟩ | ⟨-, s₁, rfl, hu⟩⟩
  · rcases recvHello_cases h with ⟨-, -, rfl⟩ | ⟨n, s₁, -, hh, ⟨-, rfl⟩ | ⟨-, hc⟩⟩
    · rfl
    · exact (floods_heardHello hh).trans rfl
    · refine (floods_heardHello hh).trans ?_
      rw [(createAodvNeigh_some hc).2.2.2]
      rfl
  · rfl
  · exact floods_forwardRrep.trans ((floods_updateAodvRoute hu).trans rfl)

theorem floods_deleteAodvNeigh {ip : U32} (h : deleteAodvNeigh mem clk ip s = some t) :
    floods t = floods s := by
  unfold deleteAodvNeigh at h
  split at h
  · simp only [findAodvRoute_eq] at h
    split at h
    · rw [← Option.some.inj h]; rfl
    · split at h
      · obtain ⟨r, -, h⟩ := Option.bind_eq_some_iff.1 h
        have hgen : ∀ {ip' : U32} {s₁ : Router}, floods (genRerr mem clk ip' s₁) = floods s₁ :=
          floods_genRerr
        split at h
        · rw [← Option.some.inj h, floods_putRoute, hgen]; rfl
        · rw [removeAodvRoute_some h]
          exact hgen
      · rw [← Option.some.inj h]; rfl
  · rw [← Option.some.inj h]

theorem floods_sendHello (h : sendHello p mem clk s = some t) : floods t = floods s := by
  unfold sendHello at h
  split at h
  · obtain ⟨r, -, h⟩ := Option.bind_eq_some_iff.1 h
    rw [← Option.some.inj h, floods_insertTimer]
    exact floods_localBroadcast rfl
  · rw [← Option.some.inj h]

/-- A task that notes no flood id and forgets none. -/
def TaskType.floodFree : TaskType → Bool
  | .packet (.rreq _) | .resendRreq | .cleanup => false
  | _ => true

theorem floods_handle (hτ : τ.type.floodFree = true) (h : handle p mem clk τ s = some t) :
    floods t = floods s := by
  unfold handle at h
  split at h
  · rw [‹τ.type = _›] at hτ
    cases hτ
  · exact floods_recvRrep h
  · exact floods_recvRerr h
  · rw [← Option.some.inj h]
  · rw [‹τ.type = _›] at hτ
    cases hτ
  · exact floods_sendHello h
  · exact floods_deleteAodvNeigh h
  · exact floods_flushRoutes h
  · rw [‹τ.type = _›] at hτ
    cases hτ

/-- The clean-up task removes the flood ids that have run out. -/
theorem floods_cleanup (hτ : τ.type = .cleanup) (h : handle p mem clk τ s = some t) :
    t.floodIdQueue = s.floodIdQueue.filter (fun e => !timeBefore e.lifetime clk.now) ∧
      requests t = requests s := by
  rw [handle, hτ] at h
  have hflush : floods (flushFloodIdQueue p mem clk s) =
      floods { s with
        floodIdQueue := s.floodIdQueue.filter fun e => !timeBefore e.lifetime clk.now } :=
    floods_insertTimer
  exact floods_iff.1 ((floods_flushRoutes h).trans hflush)

/-! ## Answers -/

theorem floods_genRrep {srcIp dstIp : U32} (h : genRrep p mem clk srcIp dstIp s = some t) :
    floods t = floods s := by
  unfold genRrep at h
  simp only [findAodvRoute_eq] at h
  split at h
  · rw [← Option.some.inj h, floods_searched]
  · split at h
    · rw [← Option.some.inj h, floods_searched, floods_searched]
    · obtain ⟨r, -, h⟩ := Option.bind_eq_some_iff.1 h
      rw [← Option.some.inj h, sendRrep]
      split
      · rw [floods_sendMessage rfl, floods_searched, floods_searched]
      · rw [floods_searched, floods_searched]

theorem floods_createGatewayRoute {ok : Bool} {ip : U32}
    (h : createGatewayRoute ok clk ip s = some t) :
    floods t = floods s := by
  obtain ⟨⟨r, s₁⟩, hc, h⟩ := Option.bind_eq_some_iff.1 h
  cases r with
  | none => cases h
  | some r =>
    obtain ⟨r₁, -, h⟩ := Option.bind_eq_some_iff.1 h
    rw [← Option.some.inj h, floods_putRoute, floods_createAodvRoute hc]

theorem floods_replyToRreq {m : Rreq} {b : Bool} (h : replyToRreq p mem clk m s = some (b, t)) :
    floods t = floods s := by
  have hcreate : ∀ {s₁}, (createGatewayRoute (mem .route 1) clk m.dstIp s₁).map
      (fun s => (true, s)) =
      some (b, t) → floods t = floods s₁ := fun h => by
    obtain ⟨s₂, hc, he⟩ := Option.map_eq_some_iff.1 h
    rw [← (Prod.mk.inj he).2, floods_createGatewayRoute hc]
  have hsame : ∀ {s₁} {b' : Bool}, some (b', s₁) = some (b, t) → floods s₁ = floods s →
      floods t = floods s := fun h hs => by
    rw [← (Prod.mk.inj (Option.some.inj h)).2, hs]
  unfold replyToRreq at h
  simp only [findAodvRoute_eq] at h
  split at h
  · split at h
    · split at h
      · exact (hcreate h).trans (floods_searched _)
      · exact hsame h rfl
    · split at h
      · exact hsame h rfl
      · split at h
        · exact (hcreate h).trans (floods_searched _)
        · exact hsame h rfl
  · split at h
    · exact hsame h rfl
    · split at h
      · refine hsame h ?_
        split <;> rfl
      · exact hsame h rfl

/-- The answer to a request is a reply, or the request goes on. -/
theorem floodIdQueue_answerRreq {m : Rreq} (h : answerRreq p mem clk τ m s = some t) :
    t.floodIdQueue = s.floodIdQueue := by
  obtain ⟨⟨b, s₁⟩, hr, h⟩ := Option.bind_eq_some_iff.1 h
  have hs₁ := (floods_iff.1 (floods_replyToRreq hr)).1
  cases b with
  | true => exact (floods_iff.1 (floods_genRrep h)).1.trans hs₁
  | false =>
    rw [← Option.some.inj h, localBroadcast]
    split
    · exact hs₁
    · exact hs₁

/-! ## Requests -/

/-- A request has been noted and broadcast. -/
structure Broadcast (clk : Clock) (s t : Router) : Prop where
  out : ∃ m e, requests t = requests s ++ [m] ∧ t.floodIdQueue = e :: s.floodIdQueue ∧
    e.srcIp = m.srcIp ∧ e.id = m.rreqId ∧ e.lifetime = clk.now + pathDiscoveryTime

theorem Broadcast.congr {s₁ : Router} (h : Broadcast clk s₁ t) (hs : floods s₁ = floods s) :
    Broadcast clk s t := by
  obtain ⟨hq, hr⟩ := floods_iff.1 hs
  obtain ⟨m, e, hm, he, h⟩ := h.out
  exact ⟨m, e, by rw [hm, hr], by rw [he, hq], h⟩

theorem broadcastRreq_broadcast {srcIp dstIp : U32} {n : ℕ}
    (h : ((foundRoute clk srcIp s).isSome && mem .floodId 0) = true) :
    Broadcast clk s (broadcastRreq mem clk srcIp dstIp n s) := by
  rw [Bool.and_eq_true, Option.isSome_iff_exists] at h
  obtain ⟨⟨r, hr⟩, hmem⟩ := h
  rw [broadcastRreq_of_some hr, if_pos hmem, localBroadcast, if_neg (by decide)]
  have hins : floods (insertRreqTimer (mem .task 0) clk srcIp dstIp n
      (insertFloodId srcIp dstIp r.numbered.rreqId (clk.now + pathDiscoveryTime)
        (putRoute r.numbered (searched clk srcIp (searched clk dstIp s))))) = _ :=
          floods_insertRreqTimer
  obtain ⟨hq, hr⟩ := floods_iff.1 hins
  refine ⟨outRreq clk srcIp dstIp r.numbered s, _, ?_, hq, rfl, rfl, rfl⟩
  rw [requests, List.filterMap_append]
  exact congrArg (· ++ [_]) hr

theorem floods_broadcastRreq {srcIp dstIp : U32} {n : ℕ}
    (h : ((foundRoute clk srcIp s).isSome && mem .floodId 0) = false) :
    floods (broadcastRreq mem clk srcIp dstIp n s) = floods s := by
  cases hr : foundRoute clk srcIp s with
  | none => rw [broadcastRreq_of_none hr]; rfl
  | some r =>
    rw [hr, Option.isSome_some, Bool.true_and] at h
    rw [broadcastRreq_of_some hr, h, if_neg Bool.false_ne_true]
    rfl

/-- An outgoing packet starts a discovery, or notes nothing. -/
theorem output_floods (p : Params) (mem : Mem) (clk : Clock) (d : U32) (s : Router) :
    if startsDiscovery p mem clk d s then Broadcast clk s (output p mem clk d s)
    else floods (output p mem clk d s) = floods s := by
  unfold startsDiscovery
  cases hu : unrouted p clk d s with
  | false =>
    simp only [Bool.false_and, Bool.false_eq_true, if_false]
    rcases output_of_routed mem hu with h | h | ⟨r, -, -, -, h⟩ <;> rw [h] <;> rfl
  | true =>
    have hfind : findTimer d .resendRreq (searched clk d s) = findTimer d .resendRreq s := rfl
    rw [output_of_unrouted hu]
    unfold genRreq
    rw [hfind]
    cases findTimer d .resendRreq s with
    | some τ => rfl
    | none =>
      cases hmem : mem .rreq 0 && mem .rreq 1 with
      | false =>
        simp only [Option.isNone_none, Bool.true_and, hmem, Bool.false_and,
          Bool.false_eq_true, if_false]
        rfl
      | true =>
        simp only [Option.isNone_none, Bool.true_and, hmem, if_true]
        cases h : (foundRoute clk p.myIp s).isSome && mem .floodId 0 with
        | false =>
            exact (floods_broadcastRreq (s := searched clk d s) (by rwa [foundRoute_searched]))
        | true =>
          have hb : Broadcast clk (searched clk d s)
              (broadcastRreq mem clk p.myIp d rreqRetries (searched clk d s)) :=
            broadcastRreq_broadcast (by rwa [foundRoute_searched])
          exact ⟨hb.out⟩

theorem resendRreq_floods (mem : Mem) (clk : Clock) (τ : Task) (s : Router) :
    if resends mem clk τ s then Broadcast clk s (resendRreq mem clk τ s)
    else floods (resendRreq mem clk τ s) = floods s := by
  unfold resends resendRreq
  by_cases hn : τ.retries ≤ 0
  · rw [if_pos hn, Nat.le_zero.1 hn]
    rfl
  · have hne : (τ.retries != 0) = true := by simpa using hn
    rw [if_neg hn, hne]
    cases hmem : mem .rreq 0 with
    | false => rfl
    | true =>
      simp only [Bool.true_and, if_true]
      cases h : (foundRoute clk τ.srcIp s).isSome && mem .floodId 0 with
      | false => exact floods_broadcastRreq h
      | true => exact broadcastRreq_broadcast h

end MobileCloudCaching.Aodv
