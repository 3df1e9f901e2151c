import MobileCloudCaching.Aodv.Offers
import MobileCloudCaching.Aodv.Wire

/-!
# What is handed on

A node that hands on a request or a reply changes one octet of it, the number of hops.  So the
message arrives at the end of a path with the numbers that it was sent with, whatever the byte
orders of the hosts on the way.
-/

namespace MobileCloudCaching.Aodv

open Octets

variable {p : Params} {mem : Mem} {clk : Clock} {s s₁ t : Router} {τ : Task} {ok : Message → Prop}

/-- What the handler of a task may send. -/
def Task.MaySend (τ : Task) (s : Router) : Message → Prop
  | .rreq m' => τ.type = .resendRreq ∨
      ∃ m, τ.type = .packet (.rreq m) ∧ m' = { m with metric := m.metric + 1 }
  | .rrep m' => τ.type = .hello ∨ (∃ m, τ.type = .packet (.rreq m)) ∨
      ∃ m, τ.type = .packet (.rrep m) ∧ m' = { m with metric := m.metric + 1 }
  | .rerr m' => (τ.type = .neighbor ∧ m'.dsts.length ≤ s.routes.length) ∨
      (∃ m, τ.type = .packet (.rerr m)) ∧ m'.dsts.length ≤ 255
  | .rrepAck => False

/-! ## Requests and replies -/

theorem adds_genRrep {srcIp dstIp : U32} (hok : ∀ m, ok (.rrep m))
    (h : genRrep p mem clk srcIp dstIp s = some t) : Adds ok s t := by
  unfold genRrep at h
  simp only [findAodvRoute_eq] at h
  split at h
  · exact .of_eq (Option.some.inj h ▸ rfl)
  · split at h
    · exact .of_eq (Option.some.inj h ▸ rfl)
    · obtain ⟨x, -, h⟩ := Option.bind_eq_some_iff.1 h
      unfold sendRrep at h
      split at h
      · exact Option.some.inj h ▸ .sendMessage rfl (hok _)
      · exact .of_eq (Option.some.inj h ▸ rfl)

theorem adds_recvRreq {m : Rreq} (hrreq : ok (.rreq { m with metric := m.metric + 1 }))
    (hrrep : ∀ m, ok (.rrep m)) (h : recvRreq p mem clk τ m s = some t) : Adds ok s t := by
  rcases recvRreq_cases h with rfl | rfl | ⟨-, h⟩
  · exact .of_eq rfl
  · exact .of_eq rfl
  obtain ⟨s₁, h₁, h⟩ := Option.bind_eq_some_iff.1 h
  obtain ⟨⟨b, s₂⟩, h₂, h⟩ := Option.bind_eq_some_iff.1 h
  have hnoted : (if mem .floodId 0 then
      insertFloodId m.srcIp m.dstIp m.rreqId (clk.now + pathDiscoveryTime) s₁ else s₁).sent =
      s₁.sent := by split <;> rfl
  have hsent : s₂.sent = s.sent :=
    (replyToRreq_quiet h₂).1.trans (hnoted.trans ((sent_updateAodvRoute h₁).trans rfl))
  cases b with
  | true => exact (Adds.of_eq hsent).trans (adds_genRrep hrrep h)
  | false => exact Option.some.inj h ▸ .localBroadcast hsent hrreq

theorem adds_recvRrep {m : Rrep} (hrrep : ok (.rrep { m with metric := m.metric + 1 }))
    (h : recvRrep p mem clk τ m s = some t) : Adds ok s t := by
  rcases recvRrep_cases h with ⟨-, h⟩ | ⟨-, ⟨-, rfl⟩ | ⟨-, s₁, rfl, hu⟩⟩
  · exact .of_eq ((sent_recvHello h).trans rfl)
  · exact .of_eq rfl
  · have hsent : s₁.sent = s.sent := (sent_updateAodvRoute hu).trans rfl
    unfold forwardRrep
    simp only [findAodvRoute_eq]
    split
    · exact .of_eq hsent
    · split
      · exact .of_eq hsent
      · exact .sendMessage hsent hrrep

theorem adds_broadcastRreq {srcIp dstIp : U32} {n : ℕ} (hrreq : ∀ m, ok (.rreq m)) :
    Adds ok s (broadcastRreq mem clk srcIp dstIp n s) := by
  cases hr : foundRoute clk srcIp s with
  | none =>
    rw [broadcastRreq_of_none hr]
    exact .of_eq rfl
  | some r =>
    rw [broadcastRreq_of_some hr]
    split
    · exact .localBroadcast (by cases mem .task 0 <;> rfl) (hrreq _)
    · exact .of_eq rfl

theorem adds_resendRreq (hrreq : ∀ m, ok (.rreq m)) : Adds ok s (resendRreq mem clk τ s) := by
  unfold resendRreq
  split
  · exact .of_eq rfl
  · split
    · exact adds_broadcastRreq hrreq
    · exact .of_eq rfl

theorem adds_output {daddr : U32} (hrreq : ∀ m, ok (.rreq m)) :
    Adds ok s (output p mem clk daddr s) := by
  cases hu : unrouted p clk daddr s with
  | false =>
      rcases output_of_routed mem hu with h | h | ⟨r, -, -, -, h⟩ <;> rw [h] <;> exact .of_eq rfl
  | true =>
    have hgen : Adds ok s (genRreq mem clk p.myIp daddr (searched clk daddr s)) := by
      unfold genRreq
      split
      · exact .of_eq rfl
      · split
        · exact (Adds.of_eq rfl : Adds ok s (searched clk daddr s)).trans (adds_broadcastRreq hrreq)
        · exact .of_eq rfl
    rw [output_of_unrouted hu]
    exact hgen.trans (.of_eq rfl)

theorem adds_sendHello (hrrep : ∀ m, ok (.rrep m)) (h : sendHello p mem clk s = some t) :
    Adds ok s t := by
  unfold sendHello at h
  split at h
  · obtain ⟨r, -, h⟩ := Option.bind_eq_some_iff.1 h
    rw [← Option.some.inj h]
    exact Adds.trans (.localBroadcast rfl (hrrep _)) (.of_eq sent_insertTimer)
  · exact .of_eq (Option.some.inj h ▸ rfl)

/-! ## Errors -/

theorem adds_sendRerr {b : Bool} {bad : List AodvDst} (hs : s₁.sent = s.sent)
    (hrerr : ∀ m, m.dsts = bad → ok (.rerr m)) : Adds ok s (sendRerr b bad s₁) := by
  unfold sendRerr
  split
  · exact .localBroadcast hs (hrerr _ rfl)
  · exact .of_eq hs

theorem length_breakRoutes (mem : Mem) (clk : Clock) (ip : U32) (l : List Route)
    (bad : List AodvDst) : (breakRoutes mem clk ip l bad).2.2.length ≤ l.length + bad.length := by
  induction l generalizing bad with
  | nil => exact (Nat.zero_add _).ge
  | cons r l ih =>
    rw [List.length_cons, Nat.add_right_comm]
    unfold breakRoutes
    split
    · split
      · exact (ih _).trans (by rw [List.length_cons]; omega)
      · exact (Nat.le_add_left _ _).trans (Nat.le_add_right _ _)
    · exact (ih bad).trans (Nat.le_add_right _ _)

theorem length_breakListed (mem : Mem) (clk : Clock) (srcIp : U32) (l out : List AodvDst)
    (s : Router) : (breakListed mem clk srcIp l out s).2.1.length ≤ l.length + out.length := by
  induction l generalizing out s with
  | nil => exact (Nat.zero_add _).ge
  | cons d l ih =>
    rw [List.length_cons, Nat.add_right_comm]
    unfold breakListed
    simp only [findAodvRoute_eq]
    split
    · exact (ih _ _).trans (Nat.le_add_right _ _)
    · split
      · split
        · exact (ih _ _).trans (by rw [List.length_cons]; omega)
        · exact (Nat.le_add_left _ _).trans (Nat.le_add_right _ _)
      · exact (ih _ _).trans (Nat.le_add_right _ _)

theorem adds_recvRerr {m : Rerr} (hrerr : ∀ m, m.dsts.length ≤ 255 → ok (.rerr m))
    (h : recvRerr mem clk τ m s = some t) : Adds ok s t := by
  have hloop : (breakListed mem clk τ.srcIp (m.dsts.take m.dstCount.toNat) [] s).2.2.sent =
    s.sent := sent_breakListed
  have hlen := length_breakListed mem clk τ.srcIp (m.dsts.take m.dstCount.toNat) [] s
  have hcount := m.dstCount.isLt
  unfold recvRerr at h
  split at h
  · dsimp only at h
    split at h
    · refine Option.some.inj h ▸ adds_sendRerr hloop fun m' hm' => hrerr m' ?_
      rw [hm']
      exact hlen.trans (by simp; omega)
    · exact .of_eq (Option.some.inj h ▸ hloop)
  · cases h

theorem adds_genRerr {ip : U32} (hs : s₁.sent = s.sent)
    (hrerr : ∀ m, m.dsts.length ≤ s₁.routes.length → ok (.rerr m)) :
    Adds ok s (genRerr mem clk ip s₁) := by
  have hlen := length_breakRoutes mem clk ip s₁.routes []
  unfold genRerr
  dsimp only
  split
  · split
    · exact .of_eq hs
    · exact adds_sendRerr hs fun m hm => hrerr m (hm ▸ hlen)
  · exact .of_eq hs

theorem adds_deleteAodvNeigh {ip : U32}
    (hrerr : ∀ m, m.dsts.length ≤ s.routes.length → ok (.rerr m))
    (h : deleteAodvNeigh mem clk ip s = some t) : Adds ok s t := by
  unfold deleteAodvNeigh at h
  split at h
  · simp only [findAodvRoute_eq] at h
    split at h
    · exact .of_eq (Option.some.inj h ▸ rfl)
    · split at h
      · obtain ⟨x, -, h⟩ := Option.bind_eq_some_iff.1 h
        generalize hg : genRerr mem clk _ _ = s₁ at h
        have hlen : (searched clk ip s).routes.length = s.routes.length :=
          marked_searched.length_eq.symm
        have hgen : Adds ok s s₁ := hg ▸ adds_genRerr rfl fun m hm => hrerr m (hm.trans hlen.le)
        split at h
        · exact hgen.trans (.of_eq (Option.some.inj h ▸ rfl))
        · exact hgen.trans (.of_eq (by rw [removeAodvRoute_some h]))
      · exact .of_eq (Option.some.inj h ▸ rfl)
  · exact .of_eq (Option.some.inj h ▸ rfl)

/-- What a handler sends, by the type of its task. -/
theorem adds_handle (h : handle p mem clk τ s = some t) : Adds (τ.MaySend s) s t := by
  unfold handle at h
  split at h
  · rename_i m hτ
    exact adds_recvRreq (.inr ⟨m, hτ, rfl⟩) (fun _ => .inr (.inl ⟨m, hτ⟩)) h
  · rename_i m hτ
    exact adds_recvRrep (.inr (.inr ⟨m, hτ, rfl⟩)) h
  · rename_i m hτ
    exact adds_recvRerr (fun _ hm => .inr ⟨⟨m, hτ⟩, hm⟩) h
  · exact .of_eq (Option.some.inj h ▸ rfl)
  · exact .of_eq ((sent_flushRoutes h).trans sent_insertTimer)
  · exact adds_sendHello (fun _ => .inl ‹_›) h
  · exact adds_deleteAodvNeigh (fun _ hm => .inl ⟨‹_›, hm⟩) h
  · exact .of_eq (sent_flushRoutes h)
  · exact Option.some.inj h ▸ adds_resendRreq fun _ => .inl ‹_›

/-! ## Handing on -/

/-- What goes out again with the data. -/
def Spare.of (data : List Byte) : Spare := ⟨data.getD 1 0, data.getD 2 0⟩

/-- A run of the handler at the node makes `data'` of a message `data` of the same type. -/
def HandsOn (p : Params) (data data' : List Byte) : Prop :=
  ∃ mem clk τ s t msg, ∃ g ∈ t.sent, Message.load p.order data = some msg ∧ τ.type = .packet msg ∧
    s.sent = [] ∧ handle p mem clk τ s = some t ∧
    g.msg.octets p.order (.of data) = data' ∧ data'[0]? = data[0]?

/-- The nodes hand the message on, one after the other. -/
inductive Passes : List Params → List Byte → List Byte → Prop
  | nil (data : List Byte) : Passes [] data data
  | cons {p : Params} {ps : List Params} {data data₁ data₂ : List Byte} (h : HandsOn p data data₁)
      (hps : Passes ps data₁ data₂) : Passes (p :: ps) data data₂

/-- The message after `k` hops; a route error is made anew at each. -/
def Message.passed (k : ℕ) : Message → Message
  | .rreq m => .rreq { m with metric := m.metric + BitVec.ofNat 8 k }
  | .rrep m => .rrep { m with metric := m.metric + BitVec.ofNat 8 k }
  | msg => msg

/-- A request or a reply. -/
def Message.Travels : Message → Prop
  | .rreq _ | .rrep _ => True
  | _ => False

/-- The octets do not tell the order of the host that has stored them. -/
theorem octets_seen {o r : ByteOrder} {x : Spare} {msg : Message} (h : msg.Travels) :
    (msg.seen o r).octets r x = msg.octets o x := by
  have hnum : ∀ w, store r (hton r w) = store o (hton o w) := store_hton o r
  have hip : ∀ ip, store r (seenIp o r ip) = store o ip := fun ip => by
    rw [seenIp, hnum, hton_hton]
  cases msg with
  | rreq m =>
    simp only [Message.seen, Message.octets, Rreq.octets, Rreq.words, storeAll, List.flatMap_cons,
      hnum, hip]
    rfl
  | rrep m =>
    simp only [Message.seen, Message.octets, Rrep.octets, Rrep.words, storeAll, List.flatMap_cons,
      hnum, hip]
    rfl
  | rerr m => exact h.elim
  | rrepAck => exact h.elim

theorem passed_seen {o r : ByteOrder} {k : ℕ} {msg : Message} (h : msg.Travels) :
    (msg.seen o r).passed k = (msg.passed k).seen o r := by
  cases msg with
  | rreq m => rfl
  | rrep m => rfl
  | rerr m => exact h.elim
  | rrepAck => exact h.elim

theorem travels_passed {k : ℕ} {msg : Message} (h : msg.Travels) : (msg.passed k).Travels := by
  cases msg <;> exact h

theorem passed_zero {msg : Message} : msg.passed 0 = msg := by cases msg <;> simp [Message.passed]

theorem passed_passed {j k : ℕ} {msg : Message} :
    (msg.passed j).passed k = msg.passed (j + k) := by
  cases msg <;> simp [Message.passed, BitVec.ofNat_add, BitVec.add_assoc]

theorem load_travelling {o r : ByteOrder} {x : Spare} {msg : Message} (h : msg.Travels) :
    Message.load r (msg.octets o x) = some (msg.seen o r) := by
  cases msg with
  | rreq m => exact Message.load_octets (s := {}) trivial rfl
  | rrep m => exact Message.load_octets (s := {}) trivial rfl
  | rerr m => exact h.elim
  | rrepAck => exact h.elim

/-- A node hands on the message that it has read, one hop longer. -/
theorem HandsOn.eq {o : ByteOrder} {x : Spare} {msg : Message} {data' : List Byte}
    (hmsg : msg.Travels) (h : HandsOn p (msg.octets o x) data') :
    data' = (msg.passed 1).octets o x := by
  obtain ⟨mem, clk, τ, s, t, msg', g, hg, hload, hτ, hs, hrun, rfl, htype⟩ := h
  obtain rfl : msg.seen o p.order = msg' :=
    Option.some.inj ((load_travelling hmsg).symm.trans hload)
  have hsends : τ.MaySend s g.msg := (adds_handle hrun g hg).resolve_left (by simp [hs])
  have hpassed : g.msg = (msg.seen o p.order).passed 1 := by
    generalize g.msg = out at hsends htype
    cases msg with
    | rreq m =>
      cases out with
      | rreq m' =>
        rcases hsends with h | ⟨m₁, h, rfl⟩
        · cases hτ.symm.trans h
        · cases hτ.symm.trans h
          rfl
      | rrep m' => exact absurd (Option.some.inj htype) (by decide)
      | rerr m' => rcases hsends with ⟨h, -⟩ | ⟨⟨_, h⟩, -⟩ <;> cases hτ.symm.trans h
      | rrepAck => exact hsends.elim
    | rrep m =>
      cases out with
      | rreq m' => exact absurd (Option.some.inj htype) (by decide)
      | rrep m' =>
        rcases hsends with h | ⟨_, h⟩ | ⟨m₁, h, rfl⟩
        · cases hτ.symm.trans h
        · cases hτ.symm.trans h
        · cases hτ.symm.trans h
          rfl
      | rerr m' => rcases hsends with ⟨h, -⟩ | ⟨⟨_, h⟩, -⟩ <;> cases hτ.symm.trans h
      | rrepAck => exact hsends.elim
    | rerr m => exact hmsg.elim
    | rrepAck => exact hmsg.elim
  have hspare : Spare.of (msg.octets o x) = x := by
    cases msg with
    | rreq m => rfl
    | rrep m => rfl
    | rerr m => exact hmsg.elim
    | rrepAck => exact hmsg.elim
  rw [hspare, hpassed, passed_seen hmsg, octets_seen (travels_passed hmsg)]

/-- Whatever the orders of the hosts on the way, the message arrives with the octets that it was
sent with, except for the number of hops, and every host reads it as the sender meant it. -/
theorem handed_along {o r : ByteOrder} {x : Spare} {msg : Message} {ps : List Params}
    {data' : List Byte} (hmsg : msg.Travels) (h : Passes ps (msg.octets o x) data') :
    data' = (msg.passed ps.length).octets o x ∧
      Message.load r data' = some ((msg.passed ps.length).seen o r) := by
  suffices hdata : data' = (msg.passed ps.length).octets o x from
    ⟨hdata, by rw [hdata, load_travelling (travels_passed hmsg)]⟩
  generalize hstart : msg.octets o x = data at h
  induction h generalizing msg with
  | nil data => rw [← hstart, List.length_nil, passed_zero]
  | cons h hps ih =>
    subst hstart
    rw [ih (travels_passed hmsg) (h.eq hmsg).symm, passed_passed, List.length_cons, Nat.add_comm]

/-- A host on the way that has the neighbour `ip` and no routes. -/
def relayHost (o : ByteOrder) : Params where
  order := o
  myIp := seenIp .big o 0x0A000002
  netmask := broadcastIp
  dev := 0
  gateway := false
  localSubnet := none

/-- A request from 10.0.0.1 for 10.0.0.9, on a big-endian host. -/
def requestFor9 : Message :=
  .rreq { metric := 0, rreqId := 7, dstIp := 0x0A000009, dstSeq := 1, srcIp := 0x0A000001,
          srcSeq := 5 }

/-- The task that it becomes on a host of order `o`, after `k` hops. -/
def taskFor9 (o : ByteOrder) (k : ℕ) : Task where
  type := .packet ((requestFor9.passed k).seen .big o)
  id := 0
  time := 0
  dstIp := broadcastIp
  srcIp := 1
  dev := some 0
  ttl := 10
  retries := 0

theorem handsOn_relayHost (o : ByteOrder) (k : Fin 2) :
    HandsOn (relayHost o) ((requestFor9.passed k).octets .big ⟨0x38, 0⟩)
      ((requestFor9.passed (k + 1)).octets .big ⟨0x38, 0⟩) := by
  have hrun : ∀ k : Fin 2, ∃ t ∈ handle (relayHost o) .plenty ⟨0, 0⟩ (taskFor9 o k)
      { neighs := [{ ip := 1, lifetime := 1000, dev := some 0, validLink := true }] },
      ∃ g ∈ t.sent, g.msg.octets o ⟨0x38, 0⟩ =
        (requestFor9.passed (k + 1)).octets .big ⟨0x38, 0⟩ := by
    cases o <;> decide +kernel
  obtain ⟨t, ht, g, hg, hdata⟩ := hrun k
  exact ⟨.plenty, ⟨0, 0⟩, taskFor9 o k, _, t, _, g, hg, load_travelling trivial, rfl, rfl, ht,
    hdata, rfl⟩

/-- A request of a big-endian host passes a little-endian and a big-endian one. -/
theorem handed_along_requestFor9 :
    (requestFor9.passed 2).octets .big ⟨0x38, 0⟩ = (requestFor9.passed 2).octets .big ⟨0x38, 0⟩ ∧
    Message.load .little ((requestFor9.passed 2).octets .big ⟨0x38, 0⟩) = some (.rreq
      { metric := 2, rreqId := 7, dstIp := 0x0900000A, dstSeq := 1, srcIp := 0x0100000A,
        srcSeq := 5 }) := by
  have hpasses : Passes [relayHost .little, relayHost .big] (requestFor9.octets .big ⟨0x38, 0⟩)
      ((requestFor9.passed 2).octets .big ⟨0x38, 0⟩) := by
    exact .cons (handsOn_relayHost .little 0) (.cons (handsOn_relayHost .big 1) (.nil _))
  have htravels : requestFor9.Travels := trivial
  exact handed_along htravels hpasses

end MobileCloudCaching.Aodv
