import MobileCloudCaching.Aodv.Reliance
import MobileCloudCaching.Aodv.Relays
import MobileCloudCaching.Aodv.Agenda
import MobileCloudCaching.Aodv.Stranded

/-!
# What the messages offer

A node sends an offer of a route on when it has an entry that is at least as new:
`update_aodv_route` has just taken the route, or has turned it down for a newer one, and a
reply is made of an entry.  The requests of the node itself and the hellos offer the
routes to the node, which need no entry.
-/

namespace MobileCloudCaching.Aodv

open Octets

variable {p : Params} {mem : Mem} {clk : Clock} {s s₁ t u : Router} {τ : Task}
    {d : AodvDst} {r x : Route}
  {ok : Message → Prop}

/-- The messages that have been sent from `s` on pass `ok`. -/
def Adds (ok : Message → Prop) (s t : Router) : Prop := ∀ g ∈ t.sent, g ∈ s.sent ∨ ok g.msg

/-- The node serves what the message offers, but for a route to itself. -/
def Backed (p : Params) (t : Router) (msg : Message) : Prop :=
  ∀ d ∈ msg.offer, d.ip ≠ p.myIp → d.ip ≠ 0 → Serves d t

theorem backed_of_none {msg : Message} (h : msg.offer = none) : Backed p t msg := fun d hd => by
  rw [h] at hd
  cases hd

namespace Adds

theorem of_eq (h : t.sent = s.sent) : Adds ok s t := fun _ hg => .inl (h ▸ hg)

theorem trans (h : Adds ok s s₁) (h' : Adds ok s₁ t) : Adds ok s t := fun g hg => by
  rcases h' g hg with hg | hg
  · exact h g hg
  · exact .inr hg

theorem localBroadcast {ttl : Byte} {msg : Message} (hs : s₁.sent = s.sent) (h : ok msg) :
    Adds ok s (localBroadcast ttl msg s₁) := fun g hg => by
  unfold Aodv.localBroadcast at hg
  split at hg
  · exact .inl (hs ▸ hg)
  · rcases List.mem_append.1 hg with hg | hg
    · exact .inl (hs ▸ hg)
    · rw [List.mem_singleton.1 hg]
      exact .inr h

theorem sendMessage {dst : U32} {ttl : Byte} {msg : Message} (hs : s₁.sent = s.sent) (h : ok msg) :
    Adds ok s (sendMessage p clk dst ttl msg s₁) := fun g hg => by
  unfold Aodv.sendMessage at hg
  simp only [findAodvRoute_eq] at hg
  split at hg
  · exact .inl (hs ▸ hg)
  · split at hg
    · exact .inl (hs ▸ hg)
    · split at hg
      · rcases List.mem_append.1 hg with hg | hg
        · exact .inl (hs ▸ hg)
        · rw [List.mem_singleton.1 hg]
          exact .inr h
      · exact .inl (hs ▸ hg)

theorem sendRerr {ok' : Bool} {bad : List AodvDst} (hs : s₁.sent = s.sent) (h : ∀ m, ok (.rerr m)) :
    Adds ok s (sendRerr ok' bad s₁) := by
  unfold Aodv.sendRerr
  split
  · exact .localBroadcast hs (h _)
  · exact .of_eq hs

theorem genRerr {ip : U32} (hs : s₁.sent = s.sent) (h : ∀ m, ok (.rerr m)) :
    Adds ok s (genRerr mem clk ip s₁) := by
  unfold Aodv.genRerr
  dsimp only
  split
  · split
    · exact .of_eq hs
    · exact .sendRerr hs h
  · exact .of_eq hs

end Adds

/-! ## Handlers that send nothing -/

theorem sent_insertTimer {ok : Bool} {type : TaskType} {delay : ℕ} {ip : U32} :
    (insertTimer ok clk type delay ip s).sent = s.sent := by cases ok <;> rfl

theorem sent_updateAodvRoute {ok : Bool} {u : Update} (h : updateAodvRoute ok clk u s = some t) :
    t.sent = s.sent := by
  rcases updateAodvRoute_cases h with ⟨-, rfl⟩ | ⟨-, ⟨r, -, rfl⟩ | ⟨-, r, s₁, hc, rfl⟩⟩
  · rfl
  · rfl
  · obtain ⟨-, rfl⟩ := createAodvRoute_created hc
    rfl

theorem sent_flushRoutes {l : List Route} (h : flushRoutes clk l s = some t) : t.sent = s.sent := by
  induction l generalizing s with
  | nil => rw [← Option.some.inj h]
  | cons r l ih =>
    obtain ⟨s₁, h₁, h⟩ := Option.bind_eq_some_iff.1 h
    rw [ih h]
    unfold flushRoute at h₁
    split at h₁
    · split at h₁
      · rw [← Option.some.inj h₁]
        rfl
      · rw [removeAodvRoute_some h₁]
        rfl
    · rw [← Option.some.inj h₁]

theorem sent_heardHello {m : Rrep} {n : Neigh} (h : heardHello mem clk m n s = some t) :
    t.sent = s.sent := by
  have hput : (putNeigh (n.heard clk m) (restartTimer mem clk n.ip s)).sent = s.sent :=
    (sent_insertTimer : (insertTimer _ _ _ _ _ (deleteTimer n.ip .neighbor s)).sent = _)
  unfold heardHello updateAodvNeigh at h
  dsimp only at h
  split at h
  · unfold updateAodvNeighRoute at h
    simp only [findAodvRoute_eq] at h
    split at h
    · rw [← Option.some.inj h]
      exact hput
    · obtain ⟨⟨r, s₁⟩, hc, h⟩ := Option.bind_eq_some_iff.1 h
      cases r with
      | none => cases h
      | some r =>
        obtain ⟨-, rfl⟩ := createAodvRoute_created hc
        rw [← Option.some.inj h]
        exact hput
  · rw [← Option.some.inj h]
    exact hput

theorem sent_recvHello {m : Rrep} (h : recvHello mem clk τ m s = some t) : t.sent = s.sent := by
  rcases recvHello_cases h with ⟨-, -, rfl⟩ | ⟨n, s₁, -, hh, ⟨-, rfl⟩ | ⟨-, hc⟩⟩
  · rfl
  · exact sent_heardHello hh
  · rw [sent_heardHello hh, (createAodvNeigh_some hc).2.2.2]

/-- `reply_to_rreq` sends nothing, and leaves a search behind when there is no reply. -/
theorem replyToRreq_quiet {m : Rreq} {b : Bool} (h : replyToRreq p mem clk m s = some (b, t)) :
    t.sent = s.sent ∧ (b = false → t = searched clk m.dstIp s) := by
  have hcreate : (createGatewayRoute (mem .route 1) clk m.dstIp (searched clk m.dstIp s)).map
      (fun s => (true, s)) =
      some (b, t) → t.sent = s.sent ∧ (b = false → t = searched clk m.dstIp s) := fun h => by
    obtain ⟨s₂, hc, he⟩ := Option.map_eq_some_iff.1 h
    obtain ⟨rfl, rfl⟩ := Prod.mk.inj he
    obtain ⟨⟨r, s₃⟩, hc, h⟩ := Option.bind_eq_some_iff.1 hc
    cases r with
    | none => cases h
    | some r =>
      obtain ⟨r₀, -, h⟩ := Option.bind_eq_some_iff.1 h
      obtain ⟨-, rfl⟩ := createAodvRoute_created hc
      rw [← Option.some.inj h]
      exact ⟨rfl, Bool.noConfusion⟩
  unfold replyToRreq at h
  simp only [findAodvRoute_eq] at h
  split at h
  · split at h
    · split at h
      · exact hcreate h
      · obtain ⟨rfl, rfl⟩ := Prod.mk.inj (Option.some.inj h)
        exact ⟨rfl, Bool.noConfusion⟩
    · split at h
      · obtain ⟨rfl, rfl⟩ := Prod.mk.inj (Option.some.inj h)
        exact ⟨rfl, fun _ => rfl⟩
      · split at h
        · exact hcreate h
        · obtain ⟨rfl, rfl⟩ := Prod.mk.inj (Option.some.inj h)
          exact ⟨rfl, fun _ => rfl⟩
  · split at h
    · obtain ⟨rfl, rfl⟩ := Prod.mk.inj (Option.some.inj h)
      exact ⟨rfl, fun _ => rfl⟩
    · split at h
      · obtain ⟨rfl, rfl⟩ := Prod.mk.inj (Option.some.inj h)
        refine ⟨?_, Bool.noConfusion⟩
        split <;> rfl
      · obtain ⟨rfl, rfl⟩ := Prod.mk.inj (Option.some.inj h)
        exact ⟨rfl, fun _ => rfl⟩

/-! ## Handlers that offer nothing of others -/

theorem backed_recvRerr {m : Rerr} (h : recvRerr mem clk τ m s = some t) :
    Adds (Backed p t) s t := by
  have hloop : (breakListed mem clk τ.srcIp (m.dsts.take m.dstCount.toNat) [] s).2.2.sent =
    s.sent := sent_breakListed
  unfold recvRerr at h
  split at h
  · dsimp only at h
    split at h
    · rw [← Option.some.inj h]
      exact .sendRerr hloop fun _ => backed_of_none rfl
    · exact .of_eq (Option.some.inj h ▸ hloop)
  · cases h

theorem backed_sendHello (h : sendHello p mem clk s = some t) : Adds (Backed p t) s t := by
  unfold sendHello at h
  split at h
  · obtain ⟨r, -, h⟩ := Option.bind_eq_some_iff.1 h
    rw [← Option.some.inj h]
    refine Adds.trans (.localBroadcast rfl ?_) (.of_eq sent_insertTimer)
    exact backed_of_none (if_pos rfl)
  · exact .of_eq (Option.some.inj h ▸ rfl)

theorem backed_deleteAodvNeigh {ip : U32} (h : deleteAodvNeigh mem clk ip s = some t) :
    Adds (Backed p t) s t := by
  unfold deleteAodvNeigh at h
  split at h
  · simp only [findAodvRoute_eq] at h
    split at h
    · exact .of_eq (Option.some.inj h ▸ rfl)
    · split at h
      · obtain ⟨x, -, h⟩ := Option.bind_eq_some_iff.1 h
        generalize hg : genRerr mem clk _ _ = s₁ at h
        have hgen : Adds (Backed p t) s s₁ := hg ▸ .genRerr rfl fun _ => backed_of_none rfl
        split at h
        · exact hgen.trans (.of_eq (Option.some.inj h ▸ rfl))
        · exact hgen.trans (.of_eq (by rw [removeAodvRoute_some h]))
      · exact .of_eq (Option.some.inj h ▸ rfl)
  · exact .of_eq (Option.some.inj h ▸ rfl)

/-- A request of the node itself offers a route to the node. -/
theorem backed_broadcastRreq {dstIp : U32} {n : ℕ} :
    Adds (Backed p t) s (broadcastRreq mem clk p.myIp dstIp n s) := by
  cases hr : foundRoute clk p.myIp s with
  | none =>
    rw [broadcastRreq_of_none hr]
    exact .of_eq rfl
  | some r =>
    rw [broadcastRreq_of_some hr]
    split
    · refine .localBroadcast ?_ fun d hd hne => ?_
      · cases mem .task 0 <;> rfl
      · exact absurd (Option.some.inj hd ▸ rfl) hne
    · exact .of_eq rfl

theorem backed_resendRreq (hτ : τ.srcIp = p.myIp) :
    Adds (Backed p t) s (resendRreq mem clk τ s) := by
  unfold resendRreq
  split
  · exact .of_eq rfl
  · split
    · rw [hτ]
      exact backed_broadcastRreq
    · exact .of_eq rfl

theorem backed_output {daddr : U32} : Adds (Backed p t) s (output p mem clk daddr s) := by
  cases hu : unrouted p clk daddr s with
  | false =>
      rcases output_of_routed mem hu with h | h | ⟨r, -, -, -, h⟩ <;> rw [h] <;> exact .of_eq rfl
  | true =>
    have hgen : Adds (Backed p t) s (genRreq mem clk p.myIp daddr (searched clk daddr s)) := by
      unfold genRreq
      split
      · exact .of_eq rfl
      · split
        · have hsearch : Adds (Backed p t) s (searched clk daddr s) := .of_eq rfl
          exact hsearch.trans backed_broadcastRreq
        · exact .of_eq rfl
    rw [output_of_unrouted hu]
    exact hgen.trans (.of_eq rfl)

/-! ## Routes that are passed on -/

variable {Δ : List AodvDst}

theorem Kept.serves_search (h : Kept p clk τ Δ s s₁) (hd : Serves d s₁)
    (ip : U32) : Serves d (searched clk ip s₁) :=
  hd.search (fun r hr => (h.steady r hr).stale) ip

/-- After the update there is an entry as new as the route, whether it has been taken or not. -/
theorem Kept.serves_update (h : Kept p clk τ Δ s s₁) {u : Update}
    (hv : validAodvNeigh clk u.nextHop s₁ = true) (hsafe : u.Safe p mem clk s₁) (hzero : u.ip ≠ 0)
    (hu : updateAodvRoute (mem .route 0) clk u s₁ = some t) :
    Serves { ip := u.ip, seq := u.seq } t := by
  obtain ⟨hlimit, hsafe⟩ := hsafe
  rcases updateAodvRoute_cases hu with ⟨hno, rfl⟩ | ⟨-, ⟨r, hr, rfl⟩ | ⟨-, r, s₂, hc, rfl⟩⟩
  · cases hr : foundRoute clk u.ip s₁ with
    | none =>
      rw [hr] at hsafe
      rcases hno with hno | ⟨-, hno⟩
      · rw [Update.accepted, hv, hr] at hno
        exact Bool.noConfusion hno
      · exact Bool.noConfusion (hno.symm.trans hsafe.1)
    | some r =>
      rw [hr] at hsafe
      have hmem := mem_searched hr
      have hrefused : u.refused r = true := by
        rcases hno with hno | ⟨hnone, -⟩
        · simpa [Update.accepted, hv, hr] using hno
        · exact absurd (hr.symm.trans hnone) (Option.some_ne_none r)
      exact ⟨r, hmem, hsafe.1, seq_le_of_refused hrefused
        ((h.search u.ip).steady r hmem).high hlimit⟩
  · rw [hr] at hsafe
    refine ⟨u.route clk r, ?_, hsafe.1, BitVec.le_refl _⟩
    exact List.mem_map.2 ⟨r, mem_searched hr, if_pos rfl⟩
  · obtain ⟨rfl, rfl⟩ := createAodvRoute_created hc
    refine ⟨u.route clk (newRoute (searched clk u.ip s₁).nextPtr u.ip), ?_, rfl, BitVec.le_refl _⟩
    refine List.mem_map.2 ⟨newRoute (searched clk u.ip s₁).nextPtr u.ip, ?_, if_pos rfl⟩
    show _ ∈ (created u.ip (searched clk u.ip s₁)).routes
    unfold created
    dsimp only
    rw [if_neg hzero]
    exact mem_placeRoute.2 (.inl rfl)

/-- A message to another node does not change what the node serves. -/
theorem Kept.serves_sendMessage (h : Kept p clk τ Δ s s₁) (hd : Serves d s₁) {dst : U32}
    {ttl : Byte} {msg : Message} :
    Serves d (sendMessage p clk dst ttl msg s₁) := by
  have hsearch := h.serves_search hd dst
  unfold sendMessage
  simp only [findAodvRoute_eq]
  split
  · exact hd
  · split
    · exact hsearch
    · split
      · exact hsearch.congr rfl
      · exact hsearch

theorem Kept.backed_genRrep (h : Kept p clk τ Δ s s₁) {srcIp dstIp : U32}
    (hg : genRrep p mem clk srcIp dstIp s₁ = some t) : Adds (Backed p t) s₁ t := by
  unfold genRrep at hg
  simp only [findAodvRoute_eq] at hg
  split at hg
  · exact .of_eq (Option.some.inj hg ▸ rfl)
  · split at hg
    · exact .of_eq (Option.some.inj hg ▸ rfl)
    · rename_i r hr
      obtain ⟨x, -, hg⟩ := Option.bind_eq_some_iff.1 hg
      have hkept := (h.search srcIp).search dstIp
      have hr' : Serves { ip := r.ip, seq := r.seq } (searched clk dstIp (searched clk srcIp s₁)) :=
        ⟨r, mem_searched hr, rfl, BitVec.le_refl _⟩
      unfold sendRrep at hg
      split at hg
      · rw [← Option.some.inj hg]
        refine .sendMessage rfl fun d hd _ _ => ?_
        obtain ⟨-, he⟩ := Option.ite_none_left_eq_some.1 hd
        rw [← Option.some.inj he]
        exact hkept.serves_sendMessage hr'
      · exact .of_eq (Option.some.inj hg ▸ rfl)

theorem Kept.backed_forwardRrep (h : Kept p clk τ Δ s s₁) {m : Rrep}
    (hm : m.dstIp ≠ 0 → Serves { ip := m.dstIp, seq := m.dstSeq } s₁) :
    Adds (Backed p (forwardRrep p clk m s₁)) s₁ (forwardRrep p clk m s₁) := by
  unfold forwardRrep
  simp only [findAodvRoute_eq]
  split
  · exact .of_eq rfl
  · split
    · exact .of_eq rfl
    · refine .sendMessage rfl fun d hd _ hzero => ?_
      obtain ⟨-, he⟩ := Option.ite_none_left_eq_some.1 hd
      rw [← Option.some.inj he] at hzero ⊢
      exact (h.search m.srcIp).serves_sendMessage (h.serves_search (hm hzero) m.srcIp)

/-! ## The handlers -/

theorem Update.Safe.congr {u : Update} (h : u.Safe p mem clk s)
    (hf : foundRoute clk u.ip t = foundRoute clk u.ip s)
    (hacc : u.accepted clk t = u.accepted clk s) : u.Safe p mem clk t := by
  unfold Update.Safe at h ⊢
  rwa [hf, hacc]

section Handlers

variable (hP : HandlerWrites p mem clk τ s (Kept p clk τ Δ s) (Upheld p clk τ Δ s))
    (hs : Kept p clk τ Δ s s)
  (hcare : τ.Careful p mem clk Δ s)

include hP hs hcare

theorem backed_recvRreq {m : Rreq} (hτ : τ.type = .packet (.rreq m))
    (h : recvRreq p mem clk τ m s = some t) :
    Adds (Backed p t) s t := by
  by_cases hu : τ.ttl ≤ 1 ∨ (findFloodId clk m.srcIp m.rreqId s.floodIdQueue).isSome
  · rw [recvRreq_ignored hu h]
    exact .of_eq rfl
  have hupdate : τ.update clk s = some (m.update τ) := by
    rw [Task.update, hτ]
    exact if_neg hu
  rcases recvRreq_cases h with rfl | rfl | ⟨hv, h⟩
  · exact .of_eq rfl
  · exact .of_eq rfl
  obtain ⟨s₁, h₁, h⟩ := Option.bind_eq_some_iff.1 h
  obtain ⟨⟨b, s₂⟩, h₂, h⟩ := Option.bind_eq_some_iff.1 h
  have hacc : (m.update τ).accepted clk (searched clk m.srcIp s) = (m.update τ).accepted clk s := by
    simp [Update.accepted]
    rfl
  have hk₁ : Kept p clk τ Δ s s₁ :=
    hP.updateAodvRoute hupdate hacc (foundRoute_searched _) (hs.search m.srcIp) h₁
  generalize hnoted : (if mem .floodId 0 then
    insertFloodId m.srcIp m.dstIp m.rreqId (clk.now + pathDiscoveryTime) s₁ else s₁) = s₁' at h₂
  have hroutes : s₁'.routes = s₁.routes ∧ s₁'.nextPtr = s₁.nextPtr ∧ s₁'.sent = s₁.sent := by
    rw [← hnoted]
    split <;> exact ⟨rfl, rfl, rfl⟩
  have hk₁' : Kept p clk τ Δ s s₁' := hk₁.congr hroutes.1 hroutes.2.1
  obtain ⟨hquiet, hsearched⟩ := replyToRreq_quiet h₂
  have hsent : s₂.sent = s.sent :=
    hquiet.trans (hroutes.2.2.trans ((sent_updateAodvRoute h₁).trans rfl))
  cases b with
  | true =>
    have hk₂ : Kept p clk τ Δ s s₂ := hP.replyToRreq hτ (by rw [hupdate]; rfl) hv hk₁' h₂
    exact (Adds.of_eq hsent).trans (hk₂.backed_genRrep h)
  | false =>
    obtain rfl := hsearched rfl
    rw [← Option.some.inj h]
    refine .localBroadcast hsent fun d hd _ hzero => ?_
    obtain rfl := Option.some.inj hd
    have hserves : Serves { ip := m.srcIp, seq := m.srcSeq } s₁ :=
      (hs.search m.srcIp).serves_update (u := m.update τ) hv
        ((hcare.safe hupdate hv).congr (foundRoute_searched _) hacc) hzero h₁
    have hend := hk₁'.serves_search (hserves.congr hroutes.1) m.dstIp
    unfold localBroadcast
    split
    · exact hend
    · exact hend.congr rfl

theorem backed_recvRrep {m : Rrep} (hτ : τ.type = .packet (.rrep m))
    (h : recvRrep p mem clk τ m s = some t) :
    Adds (Backed p t) s t := by
  rcases recvRrep_cases h with ⟨-, h⟩ | ⟨hne, ⟨-, rfl⟩ | ⟨hv, s₁, rfl, hu⟩⟩
  · exact .of_eq ((sent_recvHello h).trans rfl)
  · exact .of_eq rfl
  · have hupdate : τ.update clk s = some (m.update τ) := by simp [Task.update, hτ, hne]
    have hacc : (m.update τ).accepted clk (deleteTimer m.dstIp .resendRreq s) =
        (m.update τ).accepted clk s :=
      Update.accepted_congr rfl rfl
    have hfound : foundRoute clk (m.update τ).ip (deleteTimer m.dstIp .resendRreq s) =
        foundRoute clk (m.update τ).ip s :=
      foundRoute_congr rfl
    have hk : Kept p clk τ Δ s (deleteTimer m.dstIp .resendRreq s) := hs.congr rfl rfl
    have hk₁ : Kept p clk τ Δ s s₁ := hP.updateAodvRoute hupdate hacc hfound hk hu
    have hsent : Adds (Backed p (forwardRrep p clk m s₁)) s s₁ :=
      .of_eq ((sent_updateAodvRoute hu).trans rfl)
    exact hsent.trans (hk₁.backed_forwardRrep fun hzero =>
      hk.serves_update hv ((hcare.safe hupdate hv).congr hfound hacc) hzero hu)

/-- All that a careful handler sends is backed. -/
theorem backed_handle (hown : τ.type = .resendRreq → τ.srcIp = p.myIp)
    (h : handle p mem clk τ s = some t) :
    Adds (Backed p t) s t := by
  unfold handle at h
  split at h
  · exact backed_recvRreq hP hs hcare ‹_› h
  · exact backed_recvRrep hP hs hcare ‹_› h
  · exact backed_recvRerr h
  · exact .of_eq (Option.some.inj h ▸ rfl)
  · refine .of_eq ((sent_flushRoutes h).trans ?_)
    exact sent_insertTimer
  · exact backed_sendHello h
  · exact backed_deleteAodvNeigh h
  · exact .of_eq (sent_flushRoutes h)
  · rw [← Option.some.inj h]
    exact backed_resendRreq (hown ‹_›)

end Handlers

/-! ## Steps of a node -/

/-- What holds at a node.  A task with a message has come from the network. -/
structure NodeInv (p : Params) (s : Router) : Prop extends Ordered s where
  plain : ∀ r ∈ s.routes, r.Plain p
  retries : OwnRetries p s
  timers : ∀ τ ∈ s.timerQueue, ∀ msg, τ.type ≠ .packet msg

/-- The route has been taken from the next task, and the table of `s` has none that is as new. -/
def Route.TakenFrom (s : Router) (r : Route) : Prop :=
  ∃ τ msg, s.taskQ.head? = some τ ∧ τ.type = .packet msg ∧
    msg.offer = some { ip := r.ip, seq := r.seq } ∧
    r.nextHop = τ.srcIp ∧ ¬Serves { ip := r.ip, seq := r.seq } s

/-- What a step leads to at a node on which others rely for `Δ`. -/
structure Keeps (p : Params) (Δ : List AodvDst) (s t : Router) : Prop where
  inv : NodeInv p t
  serves : ∀ d ∈ Δ, Serves d t
  indirect : ∀ r ∈ t.routes, r.routeValid = true → r.nextHop ≠ r.ip → r.Stays s ∨ r.TakenFrom s
  backed : Adds (Backed p t) s t

/-- The sequence numbers of the table can be advanced. -/
def LowSeqs (s : Router) : Prop := ∀ r ∈ s.routes, r.seq < seqLimit

instance : Decidable (LowSeqs s) := inferInstanceAs (Decidable (∀ r ∈ s.routes, r.seq < seqLimit))

theorem timers_scheduled (h : ∀ τ ∈ s.timerQueue, ∀ msg, τ.type ≠ .packet msg) :
    ∀ τ' ∈ (scheduled p mem clk τ s).timerQueue, ∀ msg, τ'.type ≠ .packet msg := by
  have hinsert : ∀ {ok : Bool} {type : TaskType} {delay : ℕ} {ip : U32} {s₁ : Router},
      (∀ msg, type ≠ .packet msg) → (∀ τ' ∈ s₁.timerQueue, ∀ msg, τ'.type ≠ .packet msg) →
      ∀ τ' ∈ (insertTimer ok clk type delay ip s₁).timerQueue, ∀ msg, τ'.type ≠ .packet msg :=
    fun htype hs₁ τ' hτ' => by
      rcases mem_insertTimer hτ' with rfl | hτ'
      · exact htype
      · exact hs₁ τ' hτ'
  have hdelete : ∀ {id : U32} {type : TaskType} {s₁ : Router}, s₁.timerQueue = s.timerQueue →
      ∀ τ' ∈ (deleteTimer id type s₁).timerQueue, ∀ msg, τ'.type ≠ .packet msg :=
    fun hs₁ τ' hτ' => h τ' (hs₁ ▸ (List.mem_filter.1 hτ').1)
  have hgreeted : ∀ {n : Neigh} {m : Rrep} {s₁ : Router}, s₁.timerQueue = s.timerQueue →
      ∀ τ' ∈ (putNeigh (n.heard clk m) (restartTimer mem clk n.ip s₁)).timerQueue, ∀ msg,
      τ'.type ≠ .packet msg :=
    fun hs₁ => hinsert (by simp) (hdelete hs₁)
  unfold scheduled
  split
  · split_ifs
    · unfold greeted
      split
      · exact hgreeted rfl
      · split
        · rename_i hc
          exact hgreeted (by rw [(createAodvNeigh_some hc).2.2.2])
        · exact h
    · exact hdelete rfl
    · exact h
  · exact h
  · exact h
  · exact hinsert (by simp) h
  · split_ifs
    · exact hinsert (by simp) h
    · exact h
  · split_ifs
    · exact hdelete rfl
    · exact h
  · intro τ' hτ'
    rcases mem_insertRreqTimer hτ' with rfl | hτ'
    · exact fun msg he => TaskType.noConfusion he
    · exact h τ' hτ'

namespace NodeInv

theorem congr (h : NodeInv p s) (hroutes : t.routes = s.routes) (hnext : t.nextPtr = s.nextPtr)
    (hretries : OwnRetries p t) (htimers : ∀ τ ∈ t.timerQueue, ∀ msg, τ.type ≠ .packet msg) :
    NodeInv p t :=
  ⟨h.toOrdered.congr hroutes hnext, hroutes ▸ h.plain, hretries, htimers⟩

/-- A step that leaves the table as it is and sends nothing. -/
theorem keeps (ht : NodeInv p t) (hΔ : ∀ d ∈ Δ, Serves d s) (hroutes : t.routes = s.routes)
    (hsent : t.sent = s.sent) : Keeps p Δ s t where
  inv := ht
  serves d hd := (hΔ d hd).congr hroutes
  indirect r hr hv _ := .inl ⟨r, hroutes ▸ hr, hv, rfl, rfl, rfl⟩
  backed := .of_eq hsent

theorem kept (h : NodeInv p s) (hlow : LowSeqs s) (hΔ : ∀ d ∈ Δ, Serves d s)
    (τ : Task) : Kept p clk τ Δ s s where
  toOrderedFrom := .refl h.toOrdered
  steady r hr := .start (h.plain r hr) hr (hlow r hr)
  serves := hΔ

/-- A packet that goes out numbers the node's own entry at most. -/
theorem output (h : NodeInv p s) (hlow : LowSeqs s) (hΔ : ∀ d ∈ Δ, Serves d s) (daddr : U32)
    (hinv : OwnRetries p (output p mem clk daddr s)) : Keeps p Δ s (output p mem clk daddr s) := by
  have hup : Upheld p clk (createTask .hello clk) Δ s (Aodv.output p mem clk daddr s) := by
    refine output_keeps (P := Kept p clk (createTask .hello clk) Δ s)
      (fun h ht => h.congr (congrArg Prod.fst ht) (congrArg (·.2.1) ht)) (fun h => h.upheld)
      (fun ip _ h => h.search ip) (fun _ hr _ _ h => ?_) (fun hf hr h => ?_) (h.kept hlow hΔ _)
    · exact h.upheld.putOf hr rfl rfl
        ((h.steady _ hr).toSound.congr rfl rfl rfl rfl rfl fun _ => rfl)
        (.inl (BitVec.le_refl _))
    · exact h.upheld.number (h.steady _ hr).high hf hr
  have hchores : chores (Aodv.output p mem clk daddr s) = _ := chores_output daddr
  obtain ⟨htimers, -, -⟩ := chores_iff.1 hchores
  refine ⟨⟨hup.toOrdered, fun r hr => (hup.sound r hr).toPlain, hinv, fun τ hτ => ?_⟩, hup.serves,
    fun r hr hv hhop => ?_, backed_output⟩
  · rw [htimers] at hτ
    rcases mem_insertRreqTimer hτ with rfl | hτ
    · exact fun msg he => TaskType.noConfusion he
    · exact h.timers τ hτ
  · rcases (hup.sound r hr).indirect hv hhop with hstays | ⟨u, hu, -⟩
    · exact .inl hstays
    · exact absurd hu (by simp [Task.update, createTask])

/-- A careful handler. -/
theorem handle (h : NodeInv p s) (hlow : LowSeqs s) (hΔ : ∀ d ∈ Δ, Serves d s)
    (hq : s.taskQ.head? = some τ) (hsub : τ.NotForSubnet p mem clk { s with taskQ := s.taskQ.tail })
    (hcare : τ.Careful p mem clk Δ { s with taskQ := s.taskQ.tail })
    (hh : handle p mem clk τ { s with taskQ := s.taskQ.tail } = some t) (hinv : OwnRetries p t) :
    Keeps p Δ s t := by
  have hown : τ.type = .resendRreq → τ.srcIp = p.myIp := fun hτ =>
    (h.retries.retries τ (List.mem_append_right _ (List.mem_of_head? hq)) hτ).1
  have hpop : Ordered { s with taskQ := s.taskQ.tail } := h.toOrdered.congr rfl rfl
  have hP : HandlerWrites p mem clk τ _ (Kept p clk τ Δ { s with taskQ := s.taskQ.tail }) _ :=
    kept_writes hpop h.plain hlow (fun _ => hΔ) hown hsub hcare
  have hs : Kept p clk τ Δ { s with taskQ := s.taskQ.tail } { s with taskQ := s.taskQ.tail } :=
    ⟨.refl hpop, fun r hr => .start (h.plain r hr) hr (hlow r hr), hΔ⟩
  have hup := hP.handle hs hh
  obtain ⟨htimers, -, -⟩ := chores_iff.1 (chores_handle hh)
  refine ⟨⟨hup.toOrdered, fun r hr => (hup.sound r hr).toPlain, hinv, ?_⟩, hup.serves,
    fun r hr hv hhop => ?_, ?_⟩
  · rw [htimers]
    exact timers_scheduled h.timers
  · rcases (hup.sound r hr).indirect hv hhop with hstays | ⟨u, hu, hip, hnext, hseq, hnot⟩
    · exact .inl hstays
    · obtain ⟨hvia, msg, hτ, hoffer⟩ := Task.update_offer hu
      rw [← hip, ← hseq] at hoffer hnot
      exact .inr ⟨τ, msg, hq, hτ, hoffer, hnext.trans hvia, hnot⟩
  · have hback : Adds (Backed p t) { s with taskQ := s.taskQ.tail } t :=
      backed_handle hP hs hcare hown hh
    exact hback

end NodeInv

end MobileCloudCaching.Aodv
