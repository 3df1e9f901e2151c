import MobileCloudCaching.Caching.Thread
import Mathlib.Data.List.Forall2

/-!
# Requests that pass through

A fragment request in transit meets the daemon twice: the hook looks up a counter and drops the
packet or lets it go on, and the thread, when the task gets its turn, counts the request and perhaps
sends a new one in its place.  Here the steps of the hook and of the thread are taken in any order,
and the question is when the two decisions fit.
-/

namespace MobileCloudCaching.Caching

open Octets Transition FirstMatch

variable (p : Params)

/-! ## Counters -/

/-- The counter of a fragment after one more request in transit. -/
def bump : Option U32 → Option U32
  | none => some 1
  | some c => some (if reachThreshold p c then 0 else c + 1)

/-- A listed counter has reached `THRESHOLD`. -/
def atThreshold : Option U32 → Bool
  | none => false
  | some c => reachThreshold p c

variable {p}

theorem counter_cons (c : ReqList) (l : List ReqList) (k : U32 × U32) :
    counter (c :: l) k = if c.isFor k.1 k.2 then some c.count else counter l k := by
  unfold counter findCreq
  rw [List.find?_cons]
  cases c.isFor k.1 k.2 <;> rfl

theorem ReqList.isFor_iff {fileId fragId : U32} {c : ReqList} :
    c.isFor fileId fragId = true ↔ (c.fileId, c.fragId) = (fileId, fragId) := by
  simp [ReqList.isFor]

/-- Setting a counter is seen at its fragment only. -/
theorem counter_setCount (fileId fragId : U32) (f : U32 → U32) (d : Daemon) (k : U32 × U32) :
    counter (setCount fileId fragId f d).crlist k =
      if k = (fileId, fragId) then (counter d.crlist k).map f else counter d.crlist k := by
  have hfor : ∀ c : ReqList, ∀ x y : U32,
      ({ c with count := f c.count } : ReqList).isFor x y = c.isFor x y := fun _ _ _ => rfl
  unfold setCount counter findCreq
  dsimp only
  by_cases hk : k = (fileId, fragId)
  · subst hk
    rw [if_pos rfl, find?_modifyFirst_self (fun a => hfor a _ _), Option.map_map, Option.map_map]
    rfl
  · rw [if_neg hk, find?_modifyFirst_of_disjoint]
    intro a ha
    have hne : a.isFor k.1 k.2 = false := Bool.eq_false_iff.2 fun h =>
      hk ((ReqList.isFor_iff.1 h).symm.trans (ReqList.isFor_iff.1 ha))
    exact ⟨hne, (hfor a _ _).trans hne⟩

/-- A request that is counted bumps the counter of its fragment, and is sent on exactly when the
counter was at the threshold. -/
theorem countFrreq_spec {mem : Mem} (hmem : mem.Succeeds) (clk : Clock) (i : ℕ)
    (dstIp fileId fragId : U32) {forward : Daemon → Daemon} {g : Datagram}
    (hforward : ∀ d, forward d = { d with sent := d.sent ++ [g] }) (d : Daemon) :
    ∃ e, countFrreq p mem clk i dstIp fileId fragId forward d = some e ∧ e.taskQ = d.taskQ ∧
      (∀ k, counter e.crlist k =
        if k = (fileId, fragId) then bump p (counter d.crlist k) else counter d.crlist k) ∧
      e.sent = if atThreshold p (counter d.crlist (fileId, fragId)) then
          d.sent ++ [g, ⟨broadcastIp, 1, exchReqOctets p p.myIp dstIp fileId fragId⟩]
        else d.sent := by
  unfold countFrreq
  cases hfind : findCreq d.crlist fileId fragId with
  | none =>
    have hcount : counter d.crlist (fileId, fragId) = none := by rw [counter, hfind]; rfl
    refine ⟨_, if_pos (hmem _ _), rfl, fun k => ?_, by rw [hcount]; rfl⟩
    rw [updateCount, counter_setCount]
    by_cases hk : k = (fileId, fragId)
    · rw [if_pos hk, if_pos hk, hk, hcount, createCreq, counter_cons,
        if_pos (by simp [ReqList.isFor])]
      rfl
    · rw [if_neg hk, if_neg hk, createCreq, counter_cons, if_neg]
      exact fun hfor => hk (ReqList.isFor_iff.1 hfor).symm
  | some c =>
    have hcount : counter d.crlist (fileId, fragId) = some c.count := by rw [counter, hfind]; rfl
    by_cases hreach : reachThreshold p c.count = true
    · obtain ⟨q, hq⟩ :=
        insertTimer_eq (mem.ok .task i) clk .addCacheSend waitExchRepTime dstIp fileId
        fragId (genExchReq p (mem.ok .message (2 * i + 1)) p.myIp dstIp fileId fragId
          (forward (flushCount fileId fragId d)))
      obtain ⟨x, hx⟩ := updateTimerQueue_eq p clk
        (insertTimer (mem.ok .task i) clk .addCacheSend waitExchRepTime dstIp fileId fragId
          (genExchReq p (mem.ok .message (2 * i + 1)) p.myIp dstIp fileId fragId
            (forward (flushCount fileId fragId d))))
      refine ⟨_, if_pos hreach, ?_, fun k => ?_, ?_⟩
      · rw [hx, hq, genExchReq, if_pos (hmem _ _), hforward]
        rfl
      · have hcr : ∀ e : Daemon, (genExchReq p true p.myIp dstIp fileId fragId e).crlist =
            e.crlist :=
          fun e => rfl
        rw [hx, hq, hmem, hcr, hforward]
        dsimp only
        rw [flushCount, counter_setCount]
        by_cases hk : k = (fileId, fragId)
        · rw [if_pos hk, if_pos hk, hk, hcount]
          simp [bump, hreach]
        · rw [if_neg hk, if_neg hk]
      · have hat : atThreshold p (some c.count) = true := hreach
        rw [hx, hq, hmem, hforward, hcount, if_pos hat]
        simp [genExchReq, localBroadcast, flushCount, setCount]
    · refine ⟨_, if_neg hreach, rfl, fun k => ?_, ?_⟩
      · rw [updateCount, counter_setCount]
        by_cases hk : k = (fileId, fragId)
        · rw [if_pos hk, if_pos hk, hk, hcount]
          simp [bump, hreach]
        · rw [if_neg hk, if_neg hk]
      · have hat : ¬ atThreshold p (some c.count) = true := hreach
        rw [hcount, if_neg hat]
        rfl

/-! ## Packets in transit -/

/-- A fragment request that is to go on to another node. -/
structure InTransit (p : Params) (skb : SkBuff) : Prop where
  type : skb.message 0 = fragReqOriMessage
  len : skb.len = SkBuff.startPoint + FragReq.size
  dst : skb.daddr p.order ≠ p.myIp
  ttl : 1 < skb.ttl

instance (p : Params) (skb : SkBuff) : Decidable (InTransit p skb) :=
  decidable_of_iff (skb.message 0 = fragReqOriMessage ∧ skb.len = SkBuff.startPoint + FragReq.size ∧
      skb.daddr p.order ≠ p.myIp ∧ 1 < skb.ttl)
    ⟨fun ⟨h₁, h₂, h₃, h₄⟩ => ⟨h₁, h₂, h₃, h₄⟩, fun ⟨h₁, h₂, h₃, h₄⟩ => ⟨h₁, h₂, h₃, h₄⟩⟩

/-- The fragment that a request is for. -/
def fragment (skb : SkBuff) : U32 × U32 := (skb.field 12, skb.field 16)

/-- The fragment whose counter the hook looks up: two octets of the request. -/
def hookFragment (skb : SkBuff) : U32 × U32 :=
  ((skb.message 12).setWidth 32, (skb.message 16).setWidth 32)

/-- The `FRAG_REQ_FWD` that stands for a request: behind the first
word it has the same addresses and ids. -/
def fwdOf (p : Params) (skb : SkBuff) : Datagram where
  dst := hton p.order (skb.field 8)
  ttl := skb.ttl - 1
  payload := header fragReqFwdMessage 0 ++ skb.payload.drop 4

def Datagram.isFwd (g : Datagram) : Bool := g.payload.head? == some fragReqFwdMessage

theorem packetInVerdict_eq (hon : p.cachingOn = true) {skb : SkBuff} (h : InTransit p skb)
    (d : Daemon) : packetInVerdict p skb d =
      if atThreshold p (counter d.crlist (hookFragment skb)) then .drop else .accept := by
  rw [packetInVerdict, if_pos ⟨hon, h.type⟩]
  unfold counter hookFragment
  cases findCreq d.crlist ((skb.message 12).setWidth 32) ((skb.message 16).setWidth 32) <;> rfl

theorem packetInQueue_transit {skb : SkBuff} (h : InTransit p skb) (clk : Clock) (d : Daemon) :
    ∃ f, packetInQueue p .plenty clk skb d =
      (true, queueTask (taskOfPacket p clk .fragReqUpdate skb) { d with fOverhead := f }) := by
  have hlen : skb.numbytes = FragReq.size := by
    rw [SkBuff.numbytes, h.len]
    rfl
  refine ⟨d.fOverhead + BitVec.ofInt 32 (skb.numbytes.tdiv 4), ?_⟩
  unfold packetInQueue validCachePacket
  rw [h.type, hlen]
  rfl

theorem genFrreqByTask_transit {skb : SkBuff} (h : InTransit p skb) (clk : Clock) (d : Daemon) :
    genFrreqByTask p true (taskOfPacket p clk .fragReqUpdate skb)
        ⟨skb.field 4, skb.field 8, skb.field 12, skb.field 16⟩ d =
      { d with sent := d.sent ++ [fwdOf p skb] } := by
  have httl : skb.ttl - 1 ≠ 0 := by
    have h1 := BitVec.lt_def.1 h.ttl
    intro h0
    have h2 := congrArg BitVec.toNat h0
    rw [BitVec.toNat_sub] at h2
    have h3 := skb.ttl.isLt
    simp at h1 h2
    omega
  have hpayload : frreqOctets p fragReqFwdMessage (skb.field 4) (skb.field 8) (skb.field 12)
      (skb.field 16) = header fragReqFwdMessage 0 ++ skb.payload.drop 4 := by
    rw [frreqOctets, FragReq.store, SkBuff.payload, h.len]
    simp only [storeAll, List.flatMap_cons, List.flatMap_nil, SkBuff.field, store_hton_be32]
    rfl
  rw [genFrreqByTask, if_pos rfl]
  change sendMessage (hton p.order (skb.field 8)) (skb.ttl - 1) (frreqOctets p fragReqFwdMessage
    (skb.field 4) (skb.field 8) (skb.field 12) (skb.field 16)) d = _
  rw [hpayload, sendMessage, if_neg httl]
  rfl

theorem load_frreq_payload (o : ByteOrder) {skb : SkBuff}
    (hlen : SkBuff.startPoint + FragReq.size ≤ skb.len) :
    FragReq.load o skb.payload = some ⟨hton o (skb.field 4), hton o (skb.field 8),
    hton o (skb.field 12),
      hton o (skb.field 16)⟩ := by
  simp only [FragReq.size] at hlen
  rw [FragReq.load, SkBuff.load_payload o (by omega), SkBuff.load_payload o (by omega),
    SkBuff.load_payload o (by omega), SkBuff.load_payload o (by omega)]
  rfl

/-- The turn of a request in transit. -/
theorem handle_transit (hon : p.cachingOn = true) {skb : SkBuff} (h : InTransit p skb)
    (clk clk' : Clock) (d : Daemon) :
    ∃ e, handle p .plenty clk (taskOfPacket p clk' .fragReqUpdate skb) d = some e ∧
      e.taskQ = d.taskQ ∧
      (∀ k, counter e.crlist k =
        if k = fragment skb then bump p (counter d.crlist k) else counter d.crlist k) ∧
      (e.sent.drop d.sent.length).filter Datagram.isFwd =
        if atThreshold p (counter d.crlist (fragment skb)) then [fwdOf p skb] else [] := by
  have hload := load_frreq_payload p.order (le_of_eq h.len.symm)
  have hhandle : handle p .plenty clk (taskOfPacket p clk' .fragReqUpdate skb) d =
      countFrreq p .plenty clk 0 (skb.daddr p.order) (skb.field 12) (skb.field 16)
        (genFrreqByTask p true (taskOfPacket p clk' .fragReqUpdate skb)
          ⟨skb.field 4, skb.field 8, skb.field 12, skb.field 16⟩) d := by
    change (FragReq.load p.order skb.payload).bind _ = _
    rw [hload, Option.bind_some]
    simp only [convertFrreqToHost, hton_hton]
    have hdst : (taskOfPacket p clk' .fragReqUpdate skb).dstIp ≠ p.myIp := h.dst
    rw [if_neg hdst, if_pos hon]
    rfl
  obtain ⟨e, he, hq, hcount, hsent⟩ := countFrreq_spec Mem.plenty_succeeds clk 0 (skb.daddr p.order)
    (skb.field 12) (skb.field 16) (genFrreqByTask_transit h clk') d
  refine ⟨e, hhandle.trans he, hq, hcount, ?_⟩
  change e.sent = if atThreshold p (counter d.crlist (fragment skb)) then _ else _ at hsent
  rw [hsent]
  by_cases hat : atThreshold p (counter d.crlist (fragment skb)) = true
  · rw [if_pos hat, if_pos hat, List.drop_left]
    rfl
  · rw [if_neg hat, if_neg hat, List.drop_length]
    rfl

/-! ## Runs -/

/-- What the turn of a task did: whether the counter of the fragment was at the threshold when
the turn came, and the `FRAG_REQ_FWD` messages that were sent. -/
structure Turn where
  reached : Bool
  fwds : List Datagram

/-- The node, the packets in the order of their arrival, the decisions that the hook has made about
them, and the turns that the first of them have had. -/
structure Crossing where
  node : Daemon
  arrived : List SkBuff := []
  verdicts : ℕ → Option Verdict := fun _ => none
  turns : List Turn := []

/-- The steps: the hook queues a packet, the hook decides about the `k`-th
packet, the thread takes the oldest task. -/
inductive Step
  | arrive (clk : Clock) (skb : SkBuff)
  | test (k : ℕ)
  | turn (clk : Clock)

def cross (p : Params) : Step → Crossing → Option Crossing
  | .arrive clk skb, s =>
    if InTransit p skb then
      some { s with node := (packetInQueue p .plenty clk skb s.node).2, arrived := s.arrived ++
      [skb] }
    else none
  | .test k, s =>
    match s.arrived[k]?, s.verdicts k with
    | some skb, none =>
      some { s with verdicts := Function.update s.verdicts k (some (packetInVerdict p skb s.node)) }
    | _, _ => none
  | .turn clk, s =>
    match s.arrived[s.turns.length]? with
    | some skb =>
      (runTask p .plenty clk s.node).map fun node =>
        { s with
          node := node
          turns := s.turns ++
            [{ reached := atThreshold p (counter s.node.crlist (fragment skb))
               fwds := (node.sent.drop s.node.sent.length).filter Datagram.isFwd }] }
    | none => none

/-- The queue is empty and the hook has decided about every packet. -/
def Drained (s : Crossing) : Prop :=
  s.node.taskQ = [] ∧ ∀ k < s.arrived.length, s.verdicts k ≠ none

/-- Each packet has gone on by itself, or has been dropped and replaced by one message. -/
def ExactlyOnce (p : Params) (s : Crossing) : Prop :=
  ∀ (k : ℕ) (skb : SkBuff), s.arrived[k]? = some skb → ∃ turn, s.turns[k]? = some turn ∧
    (s.verdicts k = some .accept ∧ turn.fwds = [] ∨
      s.verdicts k = some .drop ∧ turn.fwds = [fwdOf p skb])

/-- The requests for the fragment of `skb` that are queued before the `k`-th packet. -/
def ahead (s : Crossing) (k : ℕ) (skb : SkBuff) : ℕ :=
  ((s.arrived.take k).drop s.turns.length).countP fun a => fragment a == fragment skb

/-- Whether the counter of the fragment of the `k`-th packet, `skb`, is at the threshold when
the packet's turn comes: recorded once the turn has been, and before that what the counter will
have become after the requests ahead. -/
def reachedAtTurn (p : Params) (s : Crossing) (k : ℕ) (skb : SkBuff) : Bool :=
  match s.turns[k]? with
  | some turn => turn.reached
  | none => atThreshold p ((bump p)^[ahead s k skb] (counter s.node.crlist (fragment skb)))

/-- When the hook decides, the counter that it looks up is at the threshold exactly if the
packet's own one is when its turn comes. -/
def RightTest (p : Params) : Step → Crossing → Prop
  | .test k, s => ∀ skb, s.arrived[k]? = some skb →
      atThreshold p (counter s.node.crlist (hookFragment skb)) = reachedAtTurn p s k skb
  | _, _ => True

/-- The queue holds the tasks of the packets that have not had their turn, in order. -/
structure CrossInv (p : Params) (s : Crossing) : Prop where
  queue : List.Forall₂ (fun t skb => ∃ clk, t = taskOfPacket p clk .fragReqUpdate skb) s.node.taskQ
    (s.arrived.drop s.turns.length)
  transit : ∀ skb ∈ s.arrived, InTransit p skb
  le : s.turns.length ≤ s.arrived.length
  tested : ∀ k, s.verdicts k ≠ none → k < s.arrived.length
  fwds : ∀ (k : ℕ) (skb : SkBuff) (turn : Turn), s.arrived[k]? =
  some skb → s.turns[k]? = some turn →
    turn.fwds = if turn.reached then [fwdOf p skb] else []

/-- The decisions made so far are right. -/
def Fitting (p : Params) (s : Crossing) : Prop :=
  ∀ (k : ℕ) (skb : SkBuff) (v : Verdict), s.arrived[k]? = some skb → s.verdicts k = some v →
    v = if reachedAtTurn p s k skb then .drop else .accept

section Steps

variable {s s' : Crossing}

theorem cross_arrive {clk : Clock} {skb : SkBuff} (h : cross p (.arrive clk skb) s = some s') :
    InTransit p skb ∧ ∃ f, s' = { s with
      node := queueTask (taskOfPacket p clk .fragReqUpdate skb) { s.node with fOverhead := f }
      arrived := s.arrived ++ [skb] } := by
  dsimp only [cross] at h
  split at h
  · rename_i hskb
    obtain ⟨f, hf⟩ := packetInQueue_transit hskb clk s.node
    rw [hf] at h
    exact ⟨hskb, f, (Option.some.inj h).symm⟩
  · cases h

theorem cross_test {k : ℕ} (h : cross p (.test k) s = some s') :
    ∃ skb, s.arrived[k]? = some skb ∧ s.verdicts k = none ∧
      s' = { s with
        verdicts := Function.update s.verdicts k (some (packetInVerdict p skb s.node)) } := by
  dsimp only [cross] at h
  split at h
  · rename_i skb hskb hv
    exact ⟨skb, hskb, hv, (Option.some.inj h).symm⟩
  · cases h

theorem cross_turn (hon : p.cachingOn = true) (hs : CrossInv p s) {clk : Clock}
    (h : cross p (.turn clk) s = some s') :
    ∃ skb t q node, s.arrived[s.turns.length]? = some skb ∧ s.node.taskQ = t :: q ∧ node.taskQ = q ∧
      (∀ k, counter node.crlist k =
        if k = fragment skb then bump p (counter s.node.crlist k) else counter s.node.crlist k) ∧
      s' = { s with
        node := node
        turns := s.turns ++ [{
          reached := atThreshold p (counter s.node.crlist (fragment skb))
          fwds := if atThreshold p (counter s.node.crlist (fragment skb)) then [fwdOf p skb]
            else [] }] } := by
  dsimp only [cross] at h
  split at h
  · rename_i skb hskb
    obtain ⟨node, hrun, rfl⟩ := Option.map_eq_some_iff.1 h
    obtain ⟨hlt, rfl⟩ := List.getElem?_eq_some_iff.1 hskb
    have hqueue := hs.queue
    rw [List.drop_eq_getElem_cons hlt] at hqueue
    cases hq : s.node.taskQ with
    | nil =>
      rw [hq] at hqueue
      cases hqueue
    | cons t q =>
      rw [hq, List.forall₂_cons] at hqueue
      obtain ⟨⟨clk', rfl⟩, -⟩ := hqueue
      have hskb' := hs.transit _ (List.getElem_mem hlt)
      obtain ⟨e, he, hqe, hcount, hfwd⟩ := handle_transit hon hskb' clk clk'
        { s.node with taskQ := q }
      have hrun' : runTask p .plenty clk s.node =
          handle p .plenty clk (taskOfPacket p clk' .fragReqUpdate s.arrived[s.turns.length])
            { s.node with taskQ := q } := by
        rw [runTask, getTask, hq]
      obtain rfl : e = node := Option.some.inj (he.symm.trans (hrun'.symm.trans hrun))
      refine ⟨_, _, q, e, hskb, rfl, hqe, hcount, ?_⟩
      rw [← hfwd]
  · cases h

/-- A step keeps the queue and the record of the turns in order. -/
theorem crossInv_step (hon : p.cachingOn = true) {i : Step} (hs : CrossInv p s)
    (h : cross p i s = some s') : CrossInv p s' := by
  cases i with
  | arrive clk skb =>
    obtain ⟨hskb, f, rfl⟩ := cross_arrive h
    refine ⟨?_, ?_, ?_, fun k hk => ?_, fun k a turn ha hturn => ?_⟩
    · dsimp only
      rw [List.drop_append_of_le_length hs.le]
      exact List.rel_append hs.queue (.cons ⟨clk, rfl⟩ .nil)
    · intro a ha
      rcases List.mem_append.1 ha with ha | ha
      · exact hs.transit a ha
      · rwa [List.mem_singleton.1 ha]
    · dsimp only
      rw [List.length_append]
      exact Nat.le_add_right_of_le hs.le
    · dsimp only
      rw [List.length_append]
      exact Nat.lt_add_right _ (hs.tested k hk)
    · have hk : k < s.turns.length := (List.getElem?_eq_some_iff.1 hturn).1
      dsimp only at ha
      rw [List.getElem?_append_left (hk.trans_le hs.le)] at ha
      exact hs.fwds k a turn ha hturn
  | test k =>
    obtain ⟨skb, hskb, -, rfl⟩ := cross_test h
    refine ⟨hs.queue, hs.transit, hs.le, fun j hj => ?_, hs.fwds⟩
    by_cases hjk : j = k
    · rw [hjk]
      exact (List.getElem?_eq_some_iff.1 hskb).1
    · dsimp only at hj
      rw [Function.update_of_ne hjk] at hj
      exact hs.tested j hj
  | turn clk =>
    obtain ⟨skb, t, q, node, hskb, hq, rfl, -, rfl⟩ := cross_turn hon hs h
    have hlt := (List.getElem?_eq_some_iff.1 hskb).1
    refine ⟨?_, hs.transit, ?_, hs.tested, fun k a turn ha hturn => ?_⟩
    · have hqueue := hs.queue
      rw [hq, List.drop_eq_getElem_cons hlt, List.forall₂_cons] at hqueue
      dsimp only
      rw [List.length_append]
      exact hqueue.2
    · dsimp only
      rw [List.length_append]
      exact hlt
    · dsimp only at ha hturn
      rw [List.getElem?_append] at hturn
      split at hturn
      · exact hs.fwds k a turn ha hturn
      · rw [List.getElem?_singleton] at hturn
        split at hturn
        · rename_i hk hk0
          obtain rfl : k = s.turns.length := by omega
          obtain rfl := Option.some.inj (ha.symm.trans hskb)
          obtain rfl := Option.some.inj hturn
          rfl
        · cases hturn

/-- What a packet's turn will find is known from its arrival on: no step changes it. -/
theorem reachedAtTurn_step (hon : p.cachingOn = true) {i : Step} (hs : CrossInv p s)
    (h : cross p i s = some s') {k : ℕ} (hk : k < s.arrived.length) (skb : SkBuff)
    (hskb : s.arrived[k]? = some skb) : reachedAtTurn p s' k skb = reachedAtTurn p s k skb := by
  cases i with
  | arrive clk a =>
    obtain ⟨-, f, rfl⟩ := cross_arrive h
    unfold reachedAtTurn ahead
    dsimp only [queueTask]
    rw [List.take_append_of_le_length hk.le]
  | test j =>
    obtain ⟨-, -, -, rfl⟩ := cross_test h
    rfl
  | turn clk =>
    obtain ⟨a, t, q, node, ha, -, -, hcount, rfl⟩ := cross_turn hon hs h
    have hlt := (List.getElem?_eq_some_iff.1 ha).1
    have hget := (List.getElem?_eq_some_iff.1 ha).2
    unfold reachedAtTurn
    dsimp only
    rcases Nat.lt_trichotomy k s.turns.length with hlt' | rfl | hgt
    · -- a turn in the past
      rw [List.getElem?_append_left hlt']
      cases hturn : s.turns[k]? with
      | none => exact absurd (List.getElem?_eq_none_iff.1 hturn) (by omega)
      | some turn => rfl
    · -- this turn
      obtain rfl := Option.some.inj (ha.symm.trans hskb)
      rw [List.getElem?_concat_length, List.getElem?_eq_none le_rfl]
      have h0 : ahead s s.turns.length a = 0 := by
        rw [ahead, List.drop_eq_nil_of_le (by simp)]
        rfl
      rw [h0]
      rfl
    · -- a turn to come: the one taken was ahead
      rw [List.getElem?_eq_none (by simp; omega), List.getElem?_eq_none hgt.le]
      have hahead : ahead s k skb = ((s.arrived.take k).drop (s.turns.length + 1)).countP
          (fun b => fragment b == fragment skb) + if fragment a == fragment skb then 1 else 0 := by
        rw [ahead, List.drop_eq_getElem_cons (by simp; omega), List.getElem_take, hget,
          List.countP_cons]
      rw [hcount, hahead, ahead, List.length_append, List.length_singleton]
      dsimp only
      by_cases hfrag : fragment skb = fragment a
      · have hself : (fragment a == fragment skb) = true := by simp [hfrag]
        rw [if_pos hfrag, if_pos hself, Function.iterate_succ_apply]
      · have hother : ¬ (fragment a == fragment skb) = true := by simpa using Ne.symm hfrag
        rw [if_neg hfrag, if_neg hother]
        rfl

/-- A decision is right for good or wrong for good, and a new one is right
exactly under the condition on the test. -/
theorem fitting_step (hon : p.cachingOn = true) {i : Step} (hs : CrossInv p s)
    (h : cross p i s = some s') : Fitting p s' ↔ Fitting p s ∧ RightTest p i s := by
  have hstable := fun k hk => reachedAtTurn_step hon hs h (k := k) hk
  cases i with
  | arrive clk a =>
    obtain ⟨-, f, rfl⟩ := cross_arrive h
    refine Iff.trans ⟨fun hfit k skb v hskb hv => ?_, fun hfit k skb v hskb hv => ?_⟩
      (and_iff_left trivial).symm
    · have hk := hs.tested k (by rw [hv]; simp)
      rw [← hstable k hk skb hskb]
      refine hfit k skb v ?_ hv
      dsimp only
      rwa [List.getElem?_append_left hk]
    · have hk := hs.tested k (by dsimp only at hv; rw [hv]; simp)
      dsimp only at hskb
      rw [List.getElem?_append_left hk] at hskb
      rw [hstable k hk skb hskb]
      exact hfit k skb v hskb hv
  | test j =>
    obtain ⟨a, ha, hnone, rfl⟩ := cross_test h
    have htransit := hs.transit a (List.mem_of_getElem? ha)
    have hverdict : packetInVerdict p a s.node =
        (if reachedAtTurn p s j a then .drop else .accept) ↔
        atThreshold p (counter s.node.crlist (hookFragment a)) = reachedAtTurn p s j a := by
      rw [packetInVerdict_eq hon htransit]
      cases atThreshold p (counter s.node.crlist (hookFragment a)) <;>
        cases reachedAtTurn p s j a <;> simp
    constructor
    · intro hfit
      refine ⟨fun k skb v hskb hv => ?_, fun skb hskb => ?_⟩
      · have hkj : k ≠ j := by
          rintro rfl
          rw [hnone] at hv
          cases hv
        refine hfit k skb v hskb ?_
        dsimp only
        rwa [Function.update_of_ne hkj]
      · obtain rfl := Option.some.inj (ha.symm.trans hskb)
        exact hverdict.1 (hfit j a _ ha (Function.update_self j _ _))
    · rintro ⟨hfit, htest⟩ k skb v hskb hv
      dsimp only at hv
      by_cases hkj : k = j
      · subst hkj
        obtain rfl := Option.some.inj (ha.symm.trans hskb)
        rw [Function.update_self] at hv
        obtain rfl := Option.some.inj hv
        exact hverdict.2 (htest a ha)
      · rw [Function.update_of_ne hkj] at hv
        exact hfit k skb v hskb hv
  | turn clk =>
    obtain ⟨a, t, q, node, ha, -, -, -, rfl⟩ := cross_turn hon hs h
    refine Iff.trans ⟨fun hfit k skb v hskb hv => ?_, fun hfit k skb v hskb hv => ?_⟩
      (and_iff_left trivial).symm
    · rw [← hstable k (List.getElem?_eq_some_iff.1 hskb).1 skb hskb]
      exact hfit k skb v hskb hv
    · rw [hstable k (List.getElem?_eq_some_iff.1 hskb).1 skb hskb]
      exact hfit k skb v hskb hv

/-- At the end, right decisions are what exactly-once delivery amounts to. -/
theorem exactlyOnce_iff_fitting (hs : CrossInv p s) (hend : Drained s) :
    ExactlyOnce p s ↔ Fitting p s := by
  have hlen : s.arrived.length ≤ s.turns.length := by
    have hqueue := hs.queue
    rw [hend.1] at hqueue
    exact List.drop_eq_nil_iff.1 (List.forall₂_nil_left_iff.1 hqueue)
  have hturn : ∀ (k : ℕ) (skb : SkBuff), s.arrived[k]? = some skb →
      ∃ turn, s.turns[k]? = some turn ∧
      reachedAtTurn p s k skb = turn.reached ∧
      turn.fwds = if turn.reached then [fwdOf p skb] else [] := by
    intro k skb hskb
    have hk := (List.getElem?_eq_some_iff.1 hskb).1
    have hget : s.turns[k]? = some s.turns[k] := List.getElem?_eq_getElem (by omega)
    refine ⟨s.turns[k], hget, ?_, hs.fwds k skb _ hskb hget⟩
    rw [reachedAtTurn, hget]
  constructor
  · intro honce k skb v hskb hv
    obtain ⟨turn, ht, hreached, hfwds⟩ := hturn k skb hskb
    obtain ⟨turn', ht', hcase⟩ := honce k skb hskb
    obtain rfl := Option.some.inj (ht.symm.trans ht')
    rw [hreached]
    rcases hcase with ⟨hacc, hnil⟩ | ⟨hdrop, hone⟩
    · obtain rfl := Option.some.inj (hv.symm.trans hacc)
      cases hr : turn.reached with
      | false => rfl
      | true => rw [hr, if_pos rfl, hnil] at hfwds; cases hfwds
    · obtain rfl := Option.some.inj (hv.symm.trans hdrop)
      cases hr : turn.reached with
      | false => rw [hr, if_neg (by simp), hone] at hfwds; cases hfwds
      | true => rfl
  · intro hfit k skb hskb
    obtain ⟨turn, ht, hreached, hfwds⟩ := hturn k skb hskb
    obtain ⟨v, hv⟩ := Option.ne_none_iff_exists'.1
      (hend.2 k (List.getElem?_eq_some_iff.1 hskb).1)
    have hv' := hfit k skb v hskb hv
    rw [hreached] at hv'
    refine ⟨turn, ht, ?_⟩
    cases hr : turn.reached with
    | false =>
      rw [hr] at hv' hfwds
      exact Or.inl ⟨by rw [hv, hv']; rfl, hfwds⟩
    | true =>
      rw [hr] at hv' hfwds
      exact Or.inr ⟨by rw [hv, hv']; rfl, hfwds⟩

end Steps

/-- Over a run that ends with everything done, each request in transit is
delivered exactly once if and only if every decision of the hook was made on a
counter that agreed with the packet's own. -/
theorem exactlyOnce_iff (hon : p.cachingOn = true) {l : List Step} {d : Daemon}
    (hd : d.taskQ = []) {s : Crossing} (he : exec (cross p) l { node := d } = some s)
    (hend : Drained s) : ExactlyOnce p s ↔ AllSteps (cross p) (RightTest p) l { node := d } := by
  have hinit : CrossInv p { node := d } := by
    refine ⟨?_, ?_, le_rfl, ?_, ?_⟩
    · dsimp only
      rw [hd]
      exact .nil
    · exact fun skb h => absurd h List.not_mem_nil
    · exact fun k h => absurd rfl h
    · exact fun k skb turn h => by cases h
  have hlast := exec_of_step (fun i s t => crossInv_step hon) hinit he
  have hrun := reached_iff_allSteps (I := CrossInv p) (P := Fitting p)
    (fun i s t => crossInv_step hon) (fun i s t => fitting_step hon) hinit he
  rw [exactlyOnce_iff_fitting hlast hend, hrun]
  exact and_iff_right fun k skb v hskb => by cases hskb

/-- A request of 192.168.0.20 to 192.168.0.30 for fragment (1, 1). -/
def request : SkBuff :=
  .udp .big 0xC0A80014 0xC0A8001E 10 cachePort
    (frreqOctets testNode fragReqOriMessage 0xC0A80014 0xC0A8001E 1 1)

/-- The node with `THRESHOLD` 2. -/
def thresholdNode : Params := { testNode with threshold := 2 }

/-- The request comes twice, and each time it is queued, let through and counted. -/
def twoRequests : List Step :=
  [.arrive ⟨0, 0⟩ request, .test 0, .turn ⟨0, 0⟩, .arrive ⟨0, 0⟩ request, .test 1, .turn ⟨0, 0⟩]

theorem exec_twoRequests :
    (exec (cross thresholdNode) twoRequests { node := {} }).map (fun s =>
      (s.node.taskQ, s.arrived.length, s.verdicts 0,
        s.verdicts 1, s.turns.map fun t => t.fwds.length)) =
    some ([], 2, some .accept, some .accept, [0, 1]) := by
  decide +kernel

/-- The second request goes on by itself, and the daemon sends a message in its place as well. -/
theorem reached_twoRequests : ∃ s, exec (cross thresholdNode) twoRequests { node := {} } = some s ∧
    Drained s ∧ ¬ ExactlyOnce thresholdNode s := by
  obtain ⟨s, he, hs⟩ := Option.map_eq_some_iff.1 exec_twoRequests
  simp only [Prod.mk.injEq] at hs
  obtain ⟨hq, hlen, h0, h1, hfwds⟩ := hs
  refine ⟨s, he, ⟨hq, fun k hk => ?_⟩, fun honce => ?_⟩
  · rw [hlen] at hk
    interval_cases k
    · rw [h0]
      simp
    · rw [h1]
      simp
  · obtain ⟨turn, hturn, hcase⟩ := honce 1 s.arrived[1] (List.getElem?_eq_getElem (by omega))
    have hone : (s.turns.map fun t => t.fwds.length)[1]? = some turn.fwds.length := by
      rw [List.getElem?_map, hturn]
      rfl
    rw [hfwds] at hone
    obtain ⟨-, hnil⟩ | ⟨hdrop, -⟩ := hcase
    · rw [hnil] at hone
      cases hone
    · rw [h1] at hdrop
      cases hdrop

theorem exactlyOnce_iff_twoRequests :
    ¬ AllSteps (cross thresholdNode) (RightTest thresholdNode) twoRequests { node := {} } := by
  obtain ⟨s, he, hend, hnot⟩ := reached_twoRequests
  rwa [← exactlyOnce_iff (by decide) rfl he hend]

theorem not_exactlyOnce_twoRequests :
    ¬ ∀ (p : Params) (l : List Step) (d : Daemon) (s : Crossing), p.cachingOn = true →
      1 ≤ p.threshold → d.taskQ = [] → exec (cross p) l { node := d } = some s → Drained s →
      ExactlyOnce p s := by
  intro h
  obtain ⟨s, he, hend, hnot⟩ := reached_twoRequests
  exact hnot (h thresholdNode twoRequests {} s (by decide) (by decide) rfl he hend)

/-! ## The fragment of the hook and the one of the daemon -/

/-- The fragment that `recv_frreq_ori` finds in the copied octets of a packet, and counts. -/
def decodedFragment (p : Params) (clk : Clock) (skb : SkBuff) : Option (U32 × U32) :=
  (FragReq.load p.order (taskOfPacket p clk .fragReqUpdate skb).data).map fun m =>
    ((convertFrreqToHost p.order m).fileId, (convertFrreqToHost p.order m).fragId)

theorem recvFrreqOri_decoded {clk clk' : Clock} {skb : SkBuff} {k : U32 × U32}
    (hk : decodedFragment p clk' skb = some k) (hdst : skb.daddr p.order ≠ p.myIp)
    (hon : p.cachingOn = true) (mem : Mem) (d : Daemon) : ∃ m,
      recvFrreqOri p mem clk (taskOfPacket p clk' .fragReqUpdate skb) d =
        countFrreq p mem clk 0 (skb.daddr p.order) k.1 k.2
          (genFrreqByTask p (mem.ok .message 0) (taskOfPacket p clk' .fragReqUpdate skb) m) d := by
  obtain ⟨m, hm, rfl⟩ := Option.map_eq_some_iff.1 hk
  refine ⟨convertFrreqToHost p.order m, ?_⟩
  have hdst' : (taskOfPacket p clk' .fragReqUpdate skb).dstIp ≠ p.myIp := hdst
  rw [recvFrreqOri, hm, Option.bind_eq_bind, Option.bind_some, if_neg hdst', if_pos hon]
  rfl

/-- The hook looks up the fragment that the daemon counts, and so it decides by its counter. -/
structure CountsSame (p : Params) (skb : SkBuff) : Prop where
  fragment : ∀ clk, decodedFragment p clk skb = some (hookFragment skb)
  verdict : ∀ clk k d, decodedFragment p clk skb = some k → packetInVerdict p skb d =
    if p.cachingOn = true ∧ atThreshold p (counter d.crlist k) = true then .drop else .accept

theorem be32_eq_setWidth_iff {a b c d : Byte} :
    be32 a b c d = a.setWidth 32 ↔ a = 0 ∧ b = 0 ∧ c = 0 ∧ d = 0 := by
  have ha := a.isLt
  have hb := b.isLt
  have hc := c.isLt
  have hd := d.isLt
  have h0 : (0 : Byte).toNat = 0 := rfl
  have hmod : a.toNat % 2 ^ 32 = a.toNat := Nat.mod_eq_of_lt (by omega)
  simp only [← BitVec.toNat_inj, toNat_be32, BitVec.toNat_setWidth, h0, hmod]
  omega

/-- The hook takes the first octet of an id for the id. -/
theorem hookFragment_eq (skb : SkBuff) : hookFragment skb =
    ((octet (fragment skb).1 3).setWidth 32, (octet (fragment skb).2 3).setWidth 32) := by
  rw [fragment, SkBuff.field, SkBuff.field, (octet_be32 _ _ _ _).1, (octet_be32 _ _ _ _).1]
  rfl

theorem fragment_eq_hookFragment_iff {skb : SkBuff} :
    fragment skb = hookFragment skb ↔ ∀ i, 12 ≤ i → i < 20 → skb.message i = 0 := by
  rw [fragment, hookFragment, Prod.mk.injEq, SkBuff.field, SkBuff.field, be32_eq_setWidth_iff,
    be32_eq_setWidth_iff]
  constructor
  · rintro ⟨⟨h12, h13, h14, h15⟩, h16, h17, h18, h19⟩ i h₁ h₂
    interval_cases i <;> assumption
  · intro h
    refine ⟨⟨?_, ?_, ?_, ?_⟩, ?_, ?_, ?_, ?_⟩ <;> exact h _ (by omega) (by omega)

theorem decodedFragment_of_valid {skb : SkBuff} {d : Daemon}
    (htype : skb.message 0 = fragReqOriMessage)
    (hvalid : (validCachePacket p skb.numbytes (skb.message 0) skb.message d).value.1 = true)
    (clk : Clock) :
    decodedFragment p clk skb = some (fragment skb) := by
  have hsize : skb.numbytes = FragReq.size := by
    by_contra hne
    rw [htype] at hvalid
    have hfalse : (validCachePacket p skb.numbytes fragReqOriMessage skb.message d).value =
      (false, d) := if_neg hne
    rw [hfalse] at hvalid
    cases hvalid
  have hlen : SkBuff.startPoint + 20 ≤ skb.len := by
    simp only [SkBuff.numbytes, FragReq.size] at hsize
    omega
  change (FragReq.load p.order skb.payload).map _ = _
  rw [load_frreq_payload p.order hlen]
  simp only [Option.map_some, convertFrreqToHost, hton_hton]
  rfl

theorem countsSame_iff {skb : SkBuff} {d : Daemon} (htype : skb.message 0 = fragReqOriMessage)
    (hvalid : (validCachePacket p skb.numbytes (skb.message 0) skb.message d).value.1 = true) :
    CountsSame p skb ↔ ∀ i, 12 ≤ i → i < 20 → skb.message i = 0 := by
  rw [← fragment_eq_hookFragment_iff]
  constructor
  · intro h
    exact Option.some.inj ((decodedFragment_of_valid htype hvalid ⟨0, 0⟩).symm.trans
      (h.fragment ⟨0, 0⟩))
  · intro h
    refine ⟨fun clk => h ▸ decodedFragment_of_valid htype hvalid clk, fun clk k d' hk => ?_⟩
    obtain rfl := Option.some.inj ((decodedFragment_of_valid htype hvalid clk).symm.trans hk)
    rw [h, packetInVerdict]
    by_cases hon : p.cachingOn = true
    · rw [if_pos ⟨hon, htype⟩]
      unfold counter hookFragment
      cases findCreq d'.crlist ((skb.message 12).setWidth 32) ((skb.message 16).setWidth 32)
        <;> simp [atThreshold, hon]
    · rw [if_neg (fun hboth => hon hboth.1), if_neg (fun hboth => hon hboth.1)]

/-- A request for fragment (0, 0). -/
def zeroRequest : SkBuff :=
  .udp .big 0xC0A80014 0xC0A8001E 10 cachePort
    (frreqOctets testNode fragReqOriMessage 0xC0A80014 0xC0A8001E 0 0)

theorem countsSame_iff_zeroRequest :
    CountsSame testNode zeroRequest ↔ ∀ i, 12 ≤ i → i < 20 → zeroRequest.message i = 0 :=
  countsSame_iff (d := {}) (by decide +kernel) (by decide +kernel)

/-- For fragment (1, 1) the hook looks up the counter of (0, 0). -/
theorem not_countsSame_request :
    ¬ ∀ (p : Params) (skb : SkBuff) (d : Daemon), skb.message 0 = fragReqOriMessage →
      (validCachePacket p skb.numbytes (skb.message 0) skb.message d).value.1 = true →
      CountsSame p skb := by
  intro h
  have hsame := (h testNode request {} (by decide +kernel) (by decide +kernel)).fragment ⟨0, 0⟩
  have hne : decodedFragment testNode ⟨0, 0⟩ request ≠ some (hookFragment request) := by
    decide +kernel
  exact hne hsame

end MobileCloudCaching.Caching
