import MobileCloudCaching.Caching.Flood
import Mathlib.Data.List.Chain
import Mathlib.Data.List.Forall2

/-!
# File requests in a network

Daemons exchange broadcast copies of file requests.  A copy in the air stays there, so that it can
be delivered late, several times or never, to any node within reach of its sender.  Each copy
carries the trail of the nodes that it has been at, which no daemon sees.
-/

namespace MobileCloudCaching.Caching

open Octets Transition

variable {ι : Type*}

/-! ## The network -/

/-- The nodes, who can hear whom, and the clock readings at which the modules were loaded. -/
structure Topology (ι : Type*) where
  node : ι → Params
  link : ι → ι → Prop
  boot : ι → ℕ

/-- A broadcast copy of a file request: its sender, the datagram, the TTL that the request set
out with and the nodes that it has been at, the requester first and the sender last. -/
structure Copy (ι : Type*) where
  sender : ι
  ttl : Byte
  payload : List Byte
  firstTtl : Byte
  trail : List ι

/-- A run of `recv_flreq` that sent something: where and when, the pair of requester and sequence
number, the datagrams, and the nodes that the request has been at, this one included. -/
structure Handled (ι : Type*) where
  node : ι
  time : ℕ
  key : Option (U32 × U32)
  sent : List Datagram
  trail : List ι

/-- `origins v` tells, for each task that is queued at `v`, the copy that it was made from, if
any. -/
structure Network (ι : Type*) where
  daemon : ι → Daemon
  origins : ι → List (Option (Copy ι))
  clock : ι → ℕ
  air : List (Copy ι)
  handled : List (Handled ι)

inductive Action (ι : Type*)
  /-- simpleFS on `u` asks for a file -/
  | request (u : ι) (fileId seq : U32) (ttl : Byte)
  /-- the `k`-th copy in the air reaches `v`, as the packet `skb` -/
  | deliver (k : ℕ) (v : ι) (clk : Clock) (skb : SkBuff)
  /-- a packet of another kind comes in -/
  | packet (v : ι) (clk : Clock) (skb : SkBuff)
  | timer (v : ι) (clk : Clock)
  | thread (v : ι) (clk : Clock) (map : Vector U32 8)

/-- Enough memory; what a fresh `map` holds is arbitrary. -/
def Mem.withMap (map : Vector U32 8) : Mem := { Mem.plenty with map := map }

theorem Mem.withMap_succeeds (map : Vector U32 8) : (Mem.withMap map).Succeeds := fun _ _ => rfl

/-- The requester and the sequence number of the request in a task. -/
def reqKey (p : Params) (t : Task) : Option (U32 × U32) :=
  (FileReq.load p.order t.data).map fun m =>
    ((convertFlreqToHost p.order m).srcIp, (convertFlreqToHost p.order m).seq)

namespace Network

variable (T : Topology ι)

/-- The clock of a node does not go back, and its readings lie within `2 ^ 31` milliseconds. -/
def Ticks (s : Network ι) (v : ι) (clk : Clock) : Prop :=
  s.clock v ≤ clk.now ∧ clk.now < T.boot v + 2 ^ 31

instance (s : Network ι) (v : ι) (clk : Clock) : Decidable (s.Ticks T v clk) := by
  unfold Ticks
  infer_instance

variable [DecidableEq ι]

/-- The node `v` gets to the state `d`; its new tasks were made from `origin`. -/
def receive (s : Network ι) (v : ι) (origin : Option (Copy ι)) (clk : Clock) (d : Daemon) :
    Network ι :=
  { s with
    daemon := Function.update s.daemon v d
    origins := Function.update s.origins v
      (s.origins v ++ List.replicate (d.taskQ.length - (s.daemon v).taskQ.length) origin)
    clock := Function.update s.clock v clk.now }

/-- The thread of `v` has run a task, which brought the node to the state `d`. -/
def handle (s : Network ι) (v : ι) (clk : Clock) (d : Daemon) : Network ι :=
  let new := d.sent.drop (s.daemon v).sent.length
  let origin := (s.origins v).head?.join
  let trail := origin.elim [] Copy.trail ++ [v]
  { daemon := Function.update s.daemon v d
    origins := Function.update s.origins v (s.origins v).tail
    clock := Function.update s.clock v clk.now
    air := s.air ++ (new.filter Datagram.isFlreq).map fun g =>
      { sender := v, ttl := g.ttl, payload := g.payload, firstTtl := origin.elim 0 Copy.firstTtl,
        trail := trail }
    handled := s.handled ++ ((s.daemon v).taskQ.take 1).flatMap fun t =>
      if t.type = .fileReqProcess ∧ new ≠ [] then
        [{ node := v, time := clk.now, key := reqKey (T.node v) t, sent := new, trail := trail }]
      else [] }

variable [DecidableRel T.link]

def step : Action ι → Network ι → Option (Network ι)
  | .request u fileId seq ttl, s =>
    some { s with air := s.air ++ [{
      sender := u, ttl := ttl, firstTtl := ttl, trail := [u]
      payload := flreqOctets (T.node u).order (T.node u).myIp fileId seq }] }
  | .deliver k v clk skb, s =>
    (s.air[k]?).bind fun c =>
      if T.link c.sender v ∧ skb.payload = c.payload ∧ skb.ttl = c.ttl ∧ s.Ticks T v clk then
        some (s.receive v (some c) clk (packetIn (T.node v) .plenty clk skb (s.daemon v)).2)
      else none
  | .packet v clk skb, s =>
    if skb.message 0 ≠ fileReqMessage ∧ s.Ticks T v clk then
      some (s.receive v none clk (packetIn (T.node v) .plenty clk skb (s.daemon v)).2)
    else none
  | .timer v clk, s =>
    if s.Ticks T v clk then
      some (s.receive v none clk (timerQueueSignal (T.node v) clk (s.daemon v)))
    else none
  | .thread v clk map, s =>
    if s.Ticks T v clk then
      (runTask (T.node v) (.withMap map) clk (s.daemon v)).map (s.handle T v clk)
    else none

/-- All modules have just been loaded. -/
def init (names : ι → List (U32 × U32)) (jiffies : ι → ℕ) : Network ι where
  daemon v := initModule (T.node v) .plenty ⟨T.boot v, jiffies v⟩ (names v)
  origins _ := []
  clock := T.boot
  air := []
  handled := []

end Network

/-! ## What holds in every state -/

section Invariant

variable (T : Topology ι)

/-- The copy has crossed as many links as its metric says, along a path from the requester, whose
address it carries, to its sender. -/
structure GoodCopy (c : Copy ι) (u : ι) (m : FileReq) : Prop where
  head : c.payload[0]? = some fileReqMessage
  load : FileReq.load .big c.payload = some m
  origin : c.trail.head? = some u
  last : c.trail.getLast? = some c.sender
  path : c.trail.IsChain T.link
  srcIp : m.srcIp = (T.node u).myIp
  metric : m.metric.toNat + 1 = c.trail.length
  ttl : m.metric.toNat + c.ttl.toNat = c.firstTtl.toNat

/-- What is known of a queued task. -/
def FromOrigin (v : ι) (t : Task) : Option (Copy ι) → Prop
  | none => t.type ≠ .fileReqProcess
  | some c => t.type = .fileReqProcess ∧ t.data = c.payload ∧ t.ttl = c.ttl ∧ T.link c.sender v ∧
      ∃ u m, GoodCopy T c u m ∧ m.srcIp ≠ (T.node v).myIp

/-- The request has come along a path from another node, and the reply, if there is one, gives its
length. -/
structure GoodHandled (h : Handled ι) : Prop where
  foreign : h.trail.head? ≠ some h.node
  last : h.trail.getLast? = some h.node
  path : h.trail.IsChain T.link
  dist : ∀ g ∈ h.sent, g.payload[0]? = some fileRepMessage →
    ∃ m, FileRep.load .big g.payload = some m ∧ m.dist.toNat + 1 = h.trail.length

/-- A request that has been handled is on the list of flood ids until its lifetime is over. -/
def Known (s : Network ι) (h : Handled ι) : Prop :=
  (∃ e ∈ (s.daemon h.node).floodIdQueue, h.key = some (e.srcIp, e.id) ∧
    e.lifetime = h.time + fileRequestLifetime) ∨ h.time + fileRequestLifetime < s.clock h.node

/-- What holds at a node, at the time `now`. -/
structure NodeInv (v : ι) (d : Daemon) (origins : List (Option (Copy ι))) (now : ℕ) : Prop where
  tasks : List.Forall₂ (FromOrigin T v) d.taskQ origins
  timers : ∀ t ∈ d.timerQueue, t.type ≠ .fileReqProcess
  boot : T.boot v ≤ now
  flood : FloodOrder (T.boot v) now d.floodIdQueue

structure NetInv (s : Network ι) : Prop where
  nodes : ∀ v, NodeInv T v (s.daemon v) (s.origins v) (s.clock v)
  copies : ∀ c ∈ s.air, ∃ u m, GoodCopy T c u m
  known : ∀ h ∈ s.handled, Known s h
  once : s.handled.Pairwise fun h h' => h.node = h'.node → h.key = h'.key →
    h.time + fileRequestLifetime < h'.time
  good : ∀ h ∈ s.handled, GoodHandled T h

variable {T}

theorem forall₂_replicate {α β : Type*} {R : α → β → Prop} {l : List α} {b : β}
    (h : ∀ a ∈ l, R a b) : List.Forall₂ R l (List.replicate l.length b) := by
  induction l with
  | nil => exact .nil
  | cons a l ih =>
    obtain ⟨ha, hl⟩ := List.forall_mem_cons.1 h
    exact .cons ha (ih hl)

/-- A request stays known as long as only expired entries go. -/
theorem Known.later {s s' : Network ι} {h : Handled ι} (hk : Known s h)
    (hkeep : ∀ e ∈ (s.daemon h.node).floodIdQueue,
      e ∈ (s'.daemon h.node).floodIdQueue ∨ e.lifetime < s'.clock h.node)
    (hclock : s.clock h.node ≤ s'.clock h.node) : Known s' h := by
  rcases hk with ⟨e, he, hkey, hlife⟩ | hk
  · rcases hkeep e he with he | he
    · exact Or.inl ⟨e, he, hkey, hlife⟩
    · exact Or.inr (hlife ▸ he)
  · exact Or.inr (hk.trans_le hclock)

theorem length_of_load_flreq {data : List Byte} {m : FileReq}
    (h : FileReq.load .big data = some m) : 24 ≤ data.length := by
  obtain ⟨_, -, h⟩ := Option.bind_eq_some_iff.1 h
  obtain ⟨_, -, h⟩ := Option.bind_eq_some_iff.1 h
  obtain ⟨_, -, h⟩ := Option.bind_eq_some_iff.1 h
  obtain ⟨_, -, h⟩ := Option.bind_eq_some_iff.1 h
  obtain ⟨x, hx, -⟩ := Option.bind_eq_some_iff.1 h
  have := (load_isSome_iff .big data 20).1 (by rw [hx]; rfl)
  omega

/-- The copy that `forward_flreq` sends: one more link, one less to live. -/
theorem goodCopy_forward {c : Copy ι} {u v : ι} {m : FileReq} (hc : GoodCopy T c u m)
    (hlink : T.link c.sender v) (httl : 1 < c.ttl) :
    GoodCopy T { sender := v, ttl := c.ttl - 1, firstTtl := c.firstTtl, trail := c.trail ++ [v]
                 payload := c.payload.take 4 ++
                  storeAll .big [m.srcIp, m.dstIp, m.fileId, m.seq, m.metric + 1] } u
      { m with metric := m.metric + 1 } := by
  have hlen := length_of_load_flreq hc.load
  have hpre : (c.payload.take 4).length = 4 := by
    rw [List.length_take]
    omega
  have hfirst := c.firstTtl.isLt
  have hsum := hc.ttl
  have httl' : 1 < c.ttl.toNat := by simpa using BitVec.lt_def.1 httl
  have hmetric : (m.metric + 1).toNat = m.metric.toNat + 1 := by
    rw [BitVec.toNat_add]
    simp
    omega
  have hsub : (c.ttl - 1).toNat = c.ttl.toNat - 1 := by
    have := c.ttl.isLt
    rw [BitVec.toNat_sub]
    simp
    omega
  refine ⟨?_, load_flreq .big .big hpre { m with metric := m.metric + 1 }, ?_, ?_, ?_, hc.srcIp,
    ?_, ?_⟩
  · dsimp only
    rw [List.getElem?_append_left (by omega), List.getElem?_take_of_lt (by decide)]
    exact hc.head
  · dsimp only
    rw [List.head?_append, hc.origin]
    rfl
  · exact List.getLast?_concat
  · refine List.isChain_append.2 ⟨hc.path, List.isChain_singleton v, fun x hx y hy => ?_⟩
    rw [hc.last] at hx
    obtain rfl := Option.some.inj hx
    obtain rfl := Option.some.inj hy
    exact hlink
  · dsimp only
    rw [hmetric, hc.metric, List.length_append]
    rfl
  · dsimp only
    rw [hmetric, hsub]
    omega

theorem goodCopy_request {u : ι} (hbig : (T.node u).order = .big) (fileId seq : U32) (ttl : Byte) :
    GoodCopy T { sender := u, ttl := ttl, firstTtl := ttl, trail := [u]
                 payload := flreqOctets (T.node u).order (T.node u).myIp fileId seq } u
      ⟨(T.node u).myIp, broadcastIp, fileId, seq, 0⟩ := by
  rw [hbig]
  refine ⟨rfl, ?_, rfl, rfl, List.isChain_singleton u, rfl, rfl, Nat.zero_add _⟩
  exact load_store_flreq .big .big ⟨(T.node u).myIp, broadcastIp, fileId, seq, 0⟩

/-- The tasks that a copy makes where it is delivered. -/
theorem fromOrigin_deliver {v : ι} {clk : Clock} {d : Daemon} (hbig : (T.node v).order = .big)
    {c : Copy ι} {u : ι} {m : FileReq} (hc : GoodCopy T c u m)
    (hlink : T.link c.sender v) {skb : SkBuff} (hpayload : skb.payload = c.payload)
    (httl : skb.ttl = c.ttl) {type : TaskType}
    (htype : TaskType.ofMessage (skb.message 0) = some type)
    (hvalid : (validCachePacket (T.node v) skb.numbytes (skb.message 0) skb.message d).value.1 =
    true) :
    FromOrigin T v (taskOfPacket (T.node v) clk type skb) (some c) := by
  have hlen := length_of_load_flreq hc.load
  rw [← hpayload, SkBuff.length_payload] at hlen
  have hstart : SkBuff.startPoint = 28 := rfl
  have hhead : skb.message 0 = fileReqMessage := by
    have h0 := hc.head
    rw [← hpayload, SkBuff.getElem?_payload (by omega)] at h0
    exact Option.some.inj h0
  obtain ⟨-, hne⟩ := srcIp_ne_of_valid hbig hhead hvalid
  have htype' : type = .fileReqProcess := by
    rw [hhead] at htype
    exact (Option.some.inj htype).symm
  have hsrc : m.srcIp = skb.field 4 := by
    obtain ⟨x, hx, hm⟩ := Option.bind_eq_some_iff.1 hc.load
    obtain ⟨_, -, hm⟩ := Option.bind_eq_some_iff.1 hm
    obtain ⟨_, -, hm⟩ := Option.bind_eq_some_iff.1 hm
    obtain ⟨_, -, hm⟩ := Option.bind_eq_some_iff.1 hm
    obtain ⟨_, -, hm⟩ := Option.bind_eq_some_iff.1 hm
    rw [← hpayload, SkBuff.load_payload .big (by omega)] at hx
    rw [← Option.some.inj hm]
    exact (Option.some.inj hx).symm
  exact ⟨htype', hpayload, httl, hlink, u, m, hc, hsrc ▸ hne⟩

end Invariant

/-! ## Steps of one node -/

section Steps

variable [DecidableEq ι] {T : Topology ι} {s : Network ι} {v : ι} {clk : Clock} {d : Daemon}

/-- The other nodes are not touched. -/
theorem nodes_update (hs : NetInv T s) {origins : List (Option (Copy ι))} {now : ℕ}
    (hv : NodeInv T v d origins now) (w : ι) :
    NodeInv T w (Function.update s.daemon v d w) (Function.update s.origins v origins w)
      (Function.update s.clock v now w) := by
  by_cases hw : w = v
  · subst hw
    rwa [Function.update_self, Function.update_self, Function.update_self]
  · rw [Function.update_of_ne hw, Function.update_of_ne hw, Function.update_of_ne hw]
    exact hs.nodes w

theorem known_update {origins : ι → List (Option (Copy ι))} {air : List (Copy ι)}
    {handled : List (Handled ι)} (hs : NetInv T s) (htick : s.Ticks T v clk)
    (hkeep : ∀ e ∈ (s.daemon v).floodIdQueue, e ∈ d.floodIdQueue ∨ e.lifetime < clk.now) :
    ∀ h ∈ s.handled, Known
      { daemon := Function.update s.daemon v d, origins := origins,
        clock := Function.update s.clock v clk.now, air := air, handled := handled } h := by
  intro h hh
  refine (hs.known h hh).later ?_ ?_
  · by_cases hv : h.node = v
    · rw [hv]
      dsimp only
      rw [Function.update_self, Function.update_self]
      exact hkeep
    · dsimp only
      rw [Function.update_of_ne hv]
      exact fun e he => Or.inl he
  · by_cases hv : h.node = v
    · rw [hv]
      dsimp only
      rw [Function.update_self]
      exact htick.1
    · dsimp only
      rw [Function.update_of_ne hv]

/-- New tasks leave everything as it was. -/
theorem netInv_receive (hs : NetInv T s) (htick : s.Ticks T v clk) {origin : Option (Copy ι)}
    {new : List Task} (hq : d.taskQ = (s.daemon v).taskQ ++ new)
    (hnew : ∀ t ∈ new, FromOrigin T v t origin)
    (htimers : ∀ t ∈ d.timerQueue, t ∈ (s.daemon v).timerQueue)
    (hflood : d.floodIdQueue = (s.daemon v).floodIdQueue) :
    NetInv T (s.receive v origin clk d) := by
  have hlen : d.taskQ.length - (s.daemon v).taskQ.length = new.length := by
    rw [hq, List.length_append]
    omega
  have hv := hs.nodes v
  refine ⟨nodes_update hs ⟨?_, fun t ht => hv.timers t (htimers t ht), hv.boot.trans htick.1, ?_⟩,
    hs.copies, known_update hs htick fun e he => Or.inl (hflood ▸ he), hs.once, hs.good⟩
  · rw [hlen, hq]
    exact List.rel_append hv.tasks (forall₂_replicate hnew)
  · rw [hflood]
    exact hv.flood.later htick.1

/-- A run of the thread that has nothing to do with file requests, or
that only forgets expired flood ids. -/
theorem netInv_handle_quiet (hs : NetInv T s) (htick : s.Ticks T v clk)
    (hq : d.taskQ = (s.daemon v).taskQ.tail)
    (htimers : ∀ t ∈ d.timerQueue, t ∈ (s.daemon v).timerQueue ∨ t.type ≠ .fileReqProcess)
    {f : FloodId → Bool} (hflood : d.floodIdQueue = (s.daemon v).floodIdQueue.filter f)
    (hf : ∀ e ∈ (s.daemon v).floodIdQueue, f e = false → e.lifetime < clk.now)
    (hsent : (d.sent.drop (s.daemon v).sent.length).filter Datagram.isFlreq = [])
    (hreq : ∀ t ∈ (s.daemon v).taskQ.take 1,
      ¬ (t.type = .fileReqProcess ∧ d.sent.drop (s.daemon v).sent.length ≠ [])) :
    NetInv T (s.handle T v clk d) := by
  have hhandled : ((s.daemon v).taskQ.take 1).flatMap (fun t =>
      if t.type = .fileReqProcess ∧ d.sent.drop (s.daemon v).sent.length ≠ [] then
        [({ node := v, time := clk.now, key := reqKey (T.node v) t,
            sent := d.sent.drop (s.daemon v).sent.length,
            trail := (s.origins v).head?.join.elim [] Copy.trail ++ [v] } : Handled ι)]
      else []) = [] := by
    rw [List.flatMap_eq_nil_iff]
    exact fun t ht => if_neg (hreq t ht)
  unfold Network.handle
  dsimp only
  rw [hsent, hhandled, List.map_nil, List.append_nil, List.append_nil]
  have hv := hs.nodes v
  refine ⟨nodes_update hs ⟨?_, fun t ht => ?_, hv.boot.trans htick.1, ?_⟩, hs.copies,
    known_update hs htick fun e he => ?_, hs.once, hs.good⟩
  · rw [hq]
    have htasks := hv.tasks
    revert htasks
    generalize (s.daemon v).taskQ = q
    generalize s.origins v = os
    rintro (- | ⟨-, h⟩)
    · exact .nil
    · exact h
  · rcases htimers t ht with ht | ht
    · exact hv.timers t ht
    · exact ht
  · rw [hflood]
    exact (hv.flood.later htick.1).filter f
  · rw [hflood]
    cases hfe : f e with
    | false => exact Or.inr (hf e he hfe)
    | true => exact Or.inl (List.mem_filter.2 ⟨he, hfe⟩)

/-- A run of `recv_flreq` that accepts the request of the copy `c`. -/
theorem netInv_handle_accept (hs : NetInv T s) (htick : s.Ticks T v clk)
    (hbig : (T.node v).order = .big) {mem : Mem} (hmem : mem.Succeeds) {t : Task} {q : List Task}
    {c : Copy ι} {os : List (Option (Copy ι))} {u : ι} {m : FileReq}
    (hq : (s.daemon v).taskQ = t :: q) (ho : s.origins v = some c :: os)
    (htype : t.type = .fileReqProcess) (hdata : t.data = c.payload) (httl : t.ttl = c.ttl)
    (hlink : T.link c.sender v) (hc : GoodCopy T c u m) (hne : m.srcIp ≠ (T.node v).myIp)
    (hlive : 1 < t.ttl)
    (hfind : findFloodId clk m.srcIp m.seq (s.daemon v).floodIdQueue = none) :
    NetInv T (s.handle T v clk
      (acceptFlreq (T.node v) mem clk t m { s.daemon v with taskQ := q })) := by
  obtain ⟨reply, hd, hreply⟩ : ∃ reply, acceptFlreq (T.node v) mem clk t m
      { s.daemon v with taskQ := q } = _ ∧ _ := acceptFlreq_spec hmem hlive m _
  simp only [hbig, hton_big, hdata, httl] at hd
  have hv := hs.nodes v
  have hkey : reqKey (T.node v) t = some (m.srcIp, m.seq) := by
    rw [reqKey, hbig, hdata, hc.load]
    rfl
  have hfwd := goodCopy_forward hc hlink (httl ▸ hlive)
  generalize hg : (⟨broadcastIp, c.ttl - 1, c.payload.take 4 ++
    storeAll .big [m.srcIp, m.dstIp, m.fileId, m.seq, m.metric + 1]⟩ : Datagram) = g at hd
  have hgreq : g.payload[0]? = some fileReqMessage := by
    rw [← hg]
    exact hfwd.head
  have hreplyHead : ∀ r ∈ reply, r.payload[0]? = some fileRepMessage := by
    intro r hr
    obtain ⟨frags, hp⟩ := hreply r hr
    rw [hp]
    rfl
  have hcopies : (reply ++ [g]).filter Datagram.isFlreq = [g] := by
    have hnone : reply.filter Datagram.isFlreq = [] := by
      rw [List.filter_eq_nil_iff]
      intro r hr
      rw [Datagram.isFlreq, List.head?_eq_getElem?, hreplyHead r hr]
      decide
    rw [List.filter_append, hnone, List.nil_append, List.filter_eq_self]
    intro r hr
    rw [List.mem_singleton.1 hr, Datagram.isFlreq, List.head?_eq_getElem?, hgreq]
    rfl
  have hfar : c.trail.head? ≠ some v := by
    intro h
    obtain rfl := Option.some.inj (hc.origin.symm.trans h)
    exact hne hc.srcIp
  -- nothing with this key has been handled within its lifetime
  have hfresh : ∀ h ∈ s.handled, h.node = v → h.key = some (m.srcIp, m.seq) →
      h.time + fileRequestLifetime < clk.now := by
    rintro h hh rfl hk
    rcases hs.known h hh with ⟨e, he, hke, hlife⟩ | hlate
    · by_contra hle
      have hfound := hv.flood.isSome_findFloodId htick.1 htick.2 he (by omega)
      obtain ⟨h1, h2⟩ := Prod.mk.inj (Option.some.inj (hk.symm.trans hke))
      rw [← h1, ← h2, hfind] at hfound
      cases hfound
    · exact hlate.trans_le htick.1
  have hgood : GoodHandled T
      { node := v
        time := clk.now
        key := some (m.srcIp, m.seq)
        sent := reply ++ [g]
        trail := c.trail ++ [v] } := by
    refine ⟨?_, List.getLast?_concat, hfwd.path, fun r hr hrep => ?_⟩
    · dsimp only
      rw [List.head?_append, hc.origin]
      rw [hc.origin] at hfar
      exact hfar
    · rcases List.mem_append.1 hr with hr | hr
      · obtain ⟨frags, hp⟩ := hreply r hr
        rw [hp, flrepOctets, load_store_flrep]
        refine ⟨_, rfl, ?_⟩
        dsimp only
        rw [hbig, seen_hton, hton_big]
        exact hfwd.metric
      · rw [List.mem_singleton.1 hr, hgreq] at hrep
        exact absurd (Option.some.inj hrep) (by decide)
  have hnew : (reply ++ [g]) ≠ [] := by simp
  have hnet : s.handle T v clk (acceptFlreq (T.node v) mem clk t m { s.daemon v with taskQ := q }) =
      { daemon := Function.update s.daemon v
          { s.daemon v with
            taskQ := q
            floodIdQueue := ⟨m.srcIp, m.dstIp, m.seq, clk.now + fileRequestLifetime⟩ ::
              (s.daemon v).floodIdQueue
            sent := (s.daemon v).sent ++ (reply ++ [g]) }
        origins := Function.update s.origins v os
        clock := Function.update s.clock v clk.now
        air := s.air ++ [{ sender := v, ttl := g.ttl, payload := g.payload, firstTtl := c.firstTtl,
                           trail := c.trail ++ [v] }]
        handled := s.handled ++ [{ node := v, time := clk.now, key := some (m.srcIp, m.seq),
                                   sent := reply ++ [g], trail := c.trail ++ [v] }] } := by
    rw [hd, Network.handle]
    simp only [List.drop_left, hcopies, ho, hq, hkey, List.head?_cons, Option.join_some,
      Option.elim_some, List.tail_cons, List.take_succ_cons, List.take_zero, List.flatMap_cons,
      List.flatMap_nil, List.append_nil, List.map_cons, List.map_nil, htype, hnew, ne_eq,
      not_false_eq_true, and_self, if_true]
  rw [hnet]
  refine ⟨nodes_update hs ⟨?_, hv.timers, hv.boot.trans htick.1, ?_⟩,
    fun a ha => ?_, fun h hh => ?_,
    ?_, fun h hh => ?_⟩
  · have htasks := hv.tasks
    rw [hq, ho, List.forall₂_cons] at htasks
    exact htasks.2
  · exact (hv.flood.later htick.1).cons (hv.boot.trans htick.1) rfl
  · rcases List.mem_append.1 ha with ha | ha
    · exact hs.copies a ha
    · rw [List.mem_singleton.1 ha, ← hg]
      exact ⟨u, _, hfwd⟩
  · rcases List.mem_append.1 hh with hh | hh
    · exact known_update hs htick (fun e he => Or.inl (List.mem_cons_of_mem _ he)) h hh
    · rw [List.mem_singleton.1 hh]
      refine Or.inl ⟨⟨m.srcIp, m.dstIp, m.seq, clk.now + fileRequestLifetime⟩, ?_, rfl, rfl⟩
      dsimp only
      rw [Function.update_self]
      exact List.mem_cons_self
  · rw [List.pairwise_append]
    refine ⟨hs.once, List.pairwise_singleton _ _, fun h hh h' hh' hnode hkeys => ?_⟩
    rw [List.mem_singleton.1 hh'] at hnode hkeys ⊢
    exact hfresh h hh hnode hkeys
  · rcases List.mem_append.1 hh with hh | hh
    · exact hs.good h hh
    · rw [List.mem_singleton.1 hh]
      exact hgood

theorem netInv_thread (hs : NetInv T s) (htick : s.Ticks T v clk)
    (hbig : (T.node v).order = .big) {mem : Mem} (hmem : mem.Succeeds)
    (h : runTask (T.node v) mem clk (s.daemon v) = some d) : NetInv T (s.handle T v clk d) := by
  have htasks := (hs.nodes v).tasks
  have hfilter : (s.daemon v).floodIdQueue.filter (fun _ => true) = (s.daemon v).floodIdQueue :=
    List.filter_true _
  unfold runTask getTask at h
  cases hq : (s.daemon v).taskQ with
  | nil =>
    rw [hq] at h
    obtain rfl := Option.some.inj h
    exact netInv_handle_quiet hs htick (by rw [hq]; rfl) (fun t ht => Or.inl ht) hfilter.symm
      (fun e _ he => by cases he) (by rw [List.drop_length]; rfl) (by rw [hq]; simp)
  | cons t q =>
    rw [hq] at h htasks
    cases ho : s.origins v with
    | nil =>
      rw [ho] at htasks
      cases htasks
    | cons o os =>
      rw [ho, List.forall₂_cons] at htasks
      obtain ⟨horigin, -⟩ := htasks
      cases o with
      | none =>
        have hreq : ∀ t' ∈ (s.daemon v).taskQ.take 1,
            ¬ (t'.type = .fileReqProcess ∧ d.sent.drop (s.daemon v).sent.length ≠ []) := by
          rw [hq]
          rintro t' ht' ⟨htype, -⟩
          obtain rfl := List.mem_singleton.1 ht'
          exact horigin htype
        by_cases hclean : t.type = .cleanUp
        · simp only [Caching.handle, hclean] at h
          obtain rfl := Option.some.inj h
          obtain ⟨hflood, htq, hsent, htimers⟩ := cleanUp_flood (T.node v) mem clk
            { s.daemon v with taskQ := q }
          refine netInv_handle_quiet hs htick (by rw [htq, hq]; rfl) htimers hflood
            (fun e he hfe => ?_) (by rw [hsent, List.drop_length]; rfl) hreq
          rw [Bool.not_eq_false'] at hfe
          exact ((hs.nodes v).flood.timeBefore_iff htick.1 htick.2 he).1 hfe
        · have hno := NoFlood.handle h horigin hclean
          obtain ⟨new, hnew, hnone⟩ := hno.sent
          refine netInv_handle_quiet hs htick (by rw [hno.taskQ, hq]; rfl) hno.timers
            (hno.floodIdQueue.trans hfilter.symm) (fun e _ he => by cases he) ?_ hreq
          rw [hnew, List.drop_left, List.filter_eq_nil_iff]
          exact fun g hg => by rw [hnone g hg]; simp
      | some c =>
        obtain ⟨htype, hdata, httl, hlink, u, m, hc, hne⟩ := horigin
        simp only [Caching.handle, htype] at h
        obtain ⟨m', hm', rfl | ⟨m'', rfl, hlive, hfind, rfl⟩⟩ := recvFlreq_cases _ h
        · exact netInv_handle_quiet hs htick (by rw [hq]; rfl) (fun t ht => Or.inl ht) hfilter.symm
            (fun e _ he => by cases he) (by rw [List.drop_length]; rfl)
            (fun t _ ht => ht.2 (List.drop_length ..))
        · rw [hdata, hbig] at hm'
          obtain rfl := Option.some.inj (hm'.symm.trans hc.load)
          rw [hbig] at hfind ⊢
          exact netInv_handle_accept hs htick hbig hmem hq ho htype hdata httl hlink
            hc hne hlive hfind

variable [DecidableRel T.link] {s' : Network ι}

/-- Every step keeps the invariant. -/
theorem netInv_step (hbig : ∀ v, (T.node v).order = .big) {a : Action ι} (hs : NetInv T s)
    (h : Network.step T a s = some s') : NetInv T s' := by
  cases a with
  | request u fileId seq ttl =>
    obtain rfl := Option.some.inj h
    refine ⟨hs.nodes, fun c hc => ?_, hs.known, hs.once, hs.good⟩
    rcases List.mem_append.1 hc with hc | hc
    · exact hs.copies c hc
    · rw [List.mem_singleton.1 hc]
      exact ⟨u, _, goodCopy_request (hbig u) fileId seq ttl⟩
  | deliver k v clk skb =>
    obtain ⟨c, hk, h⟩ := Option.bind_eq_some_iff.1 h
    split at h
    · rename_i hcond
      obtain ⟨hlink, hpayload, httl, htick⟩ := hcond
      obtain rfl := Option.some.inj h
      obtain ⟨u, m, hc⟩ := hs.copies c (List.mem_of_getElem? hk)
      obtain ⟨new, f, x, he, hnew⟩ := packetIn_tasks (T.node v) .plenty clk skb (s.daemon v)
      rw [he]
      refine netInv_receive hs htick rfl (fun t ht => ?_) (fun t ht => ht) rfl
      obtain ⟨type, htype, rfl, hvalid⟩ := hnew t ht
      exact fromOrigin_deliver (hbig v) hc hlink hpayload httl htype hvalid
    · cases h
  | packet v clk skb =>
    dsimp only [Network.step] at h
    split at h
    · rename_i hcond
      obtain ⟨htype, htick⟩ := hcond
      obtain rfl := Option.some.inj h
      obtain ⟨new, f, x, he, hnew⟩ := packetIn_tasks (T.node v) .plenty clk skb (s.daemon v)
      rw [he]
      refine netInv_receive hs htick rfl (fun t ht => ?_) (fun t ht => ht) rfl
      obtain ⟨type, hof, rfl, -⟩ := hnew t ht
      rintro (rfl : type = _)
      exact htype (ofMessage_eq_fileReqProcess hof)
    · cases h
  | timer v clk =>
    dsimp only [Network.step] at h
    split at h
    · rename_i htick
      obtain rfl := Option.some.inj h
      obtain ⟨new, q, x, he, hnew, hq⟩ := timerQueueSignal_tasks (T.node v) clk (s.daemon v)
      rw [he]
      exact netInv_receive hs htick rfl (fun t ht => (hs.nodes v).timers t (hnew t ht)) hq rfl
    · cases h
  | thread v clk map =>
    dsimp only [Network.step] at h
    split at h
    · rename_i htick
      obtain ⟨d, hd, rfl⟩ := Option.map_eq_some_iff.1 h
      exact netInv_thread hs htick (hbig v) (Mem.withMap_succeeds map) hd
    · cases h

end Steps

theorem netInv_init (T : Topology ι) (names : ι → List (U32 × U32)) (jiffies : ι → ℕ) :
    NetInv T (Network.init T names jiffies) := by
  refine ⟨fun v => ?_, by simp [Network.init], by simp [Network.init], .nil, by simp [Network.init]⟩
  have hinit := NoFlood.initModule (T.node v) .plenty ⟨T.boot v, jiffies v⟩ (names v)
  change NodeInv T v (initModule (T.node v) .plenty ⟨T.boot v, jiffies v⟩ (names v)) [] (T.boot v)
  refine ⟨?_, fun t ht => ?_, le_rfl, ?_⟩
  · rw [hinit.taskQ]
    exact .nil
  · rcases hinit.timers t ht with h | h
    · cases h
    · exact h
  · rw [hinit.floodIdQueue]
    exact ⟨.nil, by simp, by simp⟩

/-! ## Runs -/

/-- Flooding as it should be. -/
structure FloodSpec (T : Topology ι) (s : Network ι) : Prop where
  /-- a node that has handled a request does not handle it again within the lifetime -/
  once : s.handled.Pairwise fun h h' => h.node = h'.node → h.key = h'.key →
    h.time + fileRequestLifetime < h'.time
  /-- no copy of a node's own request gets into its queue, or is handled there -/
  own : (∀ v c, some c ∈ s.origins v → c.trail.head? ≠ some v) ∧
    ∀ h ∈ s.handled, h.trail.head? ≠ some h.node
  /-- the metric of a copy is the number of links on its trail, and
  together with the TTL it makes the first TTL -/
  copies : ∀ c ∈ s.air, c.trail.IsChain T.link ∧ c.trail.getLast? = some c.sender ∧
    ∃ m, FileReq.load .big c.payload = some m ∧ m.metric.toNat + 1 = c.trail.length ∧
      m.metric.toNat + c.ttl.toNat = c.firstTtl.toNat
  /-- the distance in a reply is the number of links on the way from the requester -/
  replies : ∀ h ∈ s.handled, h.trail.IsChain T.link ∧ h.trail.getLast? = some h.node ∧
    ∀ g ∈ h.sent, g.payload[0]? = some fileRepMessage →
      ∃ m, FileRep.load .big g.payload = some m ∧ m.dist.toNat + 1 = h.trail.length

theorem NetInv.floodSpec {T : Topology ι} {s : Network ι} (hs : NetInv T s) : FloodSpec T s := by
  refine ⟨hs.once, ⟨fun v c hc h => ?_, fun h hh => (hs.good h hh).foreign⟩, fun c hc => ?_,
    fun h hh => ⟨(hs.good h hh).path, (hs.good h hh).last, (hs.good h hh).dist⟩⟩
  · obtain ⟨t, -, ht⟩ : ∃ t ∈ (s.daemon v).taskQ, FromOrigin T v t (some c) := by
      obtain ⟨i, hi, hget⟩ := List.getElem_of_mem hc
      have htasks := List.forall₂_iff_get.1 (hs.nodes v).tasks
      have hi' : i < (s.daemon v).taskQ.length := htasks.1 ▸ hi
      refine ⟨(s.daemon v).taskQ[i], List.getElem_mem hi', ?_⟩
      have := htasks.2 i hi' hi
      simpa [hget] using this
    obtain ⟨-, -, -, -, u, m, hgood, hne⟩ := ht
    obtain rfl := Option.some.inj (hgood.origin.symm.trans h)
    exact hne hgood.srcIp
  · obtain ⟨u, m, hgood⟩ := hs.copies c hc
    exact ⟨hgood.path, hgood.last, m, hgood.load, hgood.metric, hgood.ttl⟩

/-- File requests are flooded at most once per node, never back to the requester's own daemon,
and the replies give true path lengths, in every run of a network of big-endian daemons. -/
theorem flooding [DecidableEq ι] {T : Topology ι} [DecidableRel T.link]
    (hbig : ∀ v, (T.node v).order = .big) (names : ι → List (U32 × U32)) (jiffies : ι → ℕ)
    {l : List (Action ι)} {s : Network ι}
    (he : exec (Network.step T) l (Network.init T names jiffies) = some s) : FloodSpec T s :=
  (exec_of_step (fun _ _ _ hs h => netInv_step hbig hs h)
    (netInv_init T names jiffies) he).floodSpec

/-- Two nodes that hear each other: 192.168.0.10 and 192.168.0.20, which has fragment (1, 1). -/
def twoNodes : Topology Bool where
  node v := { testNode with myIp := if v then 0xC0A80014 else 0xC0A8000A }
  link v w := v ≠ w
  boot _ := 1000

instance : DecidableRel twoNodes.link := fun v w => inferInstanceAs (Decidable (v ≠ w))

/-- The first node asks for file 1, and the second one replies and sends the request on; a copy that
comes late is ignored. -/
def twoNodesRun : List (Action Bool) :=
  let skb : SkBuff :=
    .udp .big 0xC0A8000A broadcastIp 10 cachePort (flreqOctets .big 0xC0A8000A 1 7)
  [.request false 1 7 10, .deliver 0 true ⟨1005, 0⟩ skb, .deliver 0 true ⟨1006, 0⟩ skb,
    .thread true ⟨1010, 0⟩ (Vector.replicate 8 0), .thread true ⟨1020, 0⟩ (Vector.replicate 8 0)]

def twoNodesInit : Network Bool :=
  .init twoNodes (fun v => if v then [(1, 1)] else []) fun _ => 0

theorem exec_twoNodesRun :
    (exec (Network.step twoNodes) twoNodesRun twoNodesInit).map (fun s =>
      (s.air.map fun c => (c.trail, c.ttl),
        s.handled.map fun h => (h.node, h.time, h.sent.length))) =
    some ([([false], 10), ([false, true], 9)], [(true, 1010, 2)]) := by
  decide +kernel

theorem flooding_twoNodes :
    ∃ s, exec (Network.step twoNodes) twoNodesRun twoNodesInit = some s ∧ FloodSpec twoNodes s ∧
      s.handled.length = 1 := by
  obtain ⟨s, he, hs⟩ := Option.map_eq_some_iff.1 exec_twoNodesRun
  refine ⟨s, he, flooding (fun _ => rfl) _ _ he, ?_⟩
  have hlen := congrArg (fun x => x.2.length) hs
  simpa using hlen

end MobileCloudCaching.Caching
