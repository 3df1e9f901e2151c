import MobileCloudCaching.Aodv.Entries
import MobileCloudCaching.Aodv.Walks

/-!
# A request that gets through finds a route

Along a path of nodes that hear each other, the request for the node at its end is handed
on to this node, and its answer is handed back.  Whoever else hears the messages, and whatever
else is on its way, every node of the path then has valid routes to both ends, and the packets that
have waited for the route go out.
-/

namespace MobileCloudCaching.Aodv

open Transition Octets

namespace Mesh

variable {n : ℕ}

/-- A node handles a packet when it arrives. -/
def handles (w : Fin n) (k : ℕ) (mem : Mem) (clk : Clock) (hears : List (Fin n)) :
    List (Action n) := [.deliver k mem clk, .thread w mem clk hears]

/-- A node that has counted a packet (`aodv_overhead`). -/
def counted (r : Router) : Router := { r with overhead := r.overhead + 1 }

theorem sent_counted {r : Router} : (counted r).sent = r.sent := rfl

theorem learns_of_counted {clk : Clock} {u : Update} {r t : Router}
    (h : Learns clk u (counted r) t) : Learns clk u r t :=
  ⟨⟨h.toTidy, h.entry, h.neighs, h.taskQ⟩, h.others⟩

theorem adopts_of_counted {clk : Clock} {u : Update} {r t : Router}
    (h : Adopts clk u (counted r) t) : Adopts clk u r t :=
  ⟨h.toTidy, h.entry, h.others, h.neighs, h.taskQ⟩

/-- The task that an arriving packet makes. -/
def taskOf (node : Fin n → Params) (clk : Clock) (c : Copy n) : Task :=
  taskOfPacket clk (arrival node c)

variable {node : Fin n → Params} {s : Mesh n} {v w : Fin n} {g : Datagram} {k : ℕ} {mem : Mem}
  {clk : Clock} {hears : List (Fin n)} {r r₁ t : Router}

theorem exec_handles (hc : s.air[k]? = some { sender := v, receiver := w, datagram := g })
    (hr : s.router w = r) (hvalid : validAodvPacket g.msg r = (true, r₁)) (hidle : r₁.taskQ = [])
    (hquiet : r₁.sent = []) (hmem : mem.Succeeds)
    (hh : handle (node w) mem clk (taskOf node clk { sender := v, receiver := w, datagram := g })
      r₁ = some t) :
    exec (step node) (handles w k mem clk hears) s =
      some (moved s w t (s.air.eraseIdx k ++ t.sent.flatMap (copies node w hears))) := by
  have hin : (packetIn mem clk (arrival node { sender := v, receiver := w, datagram := g }) r).2 =
      { r₁ with taskQ := [taskOf node clk { sender := v, receiver := w, datagram := g }] } := by
    have htask : (mem .task 0 && mem .taskData 0) = true := by rw [hmem, hmem]; rfl
    rw [packetIn, show (arrival node { sender := v, receiver := w, datagram := g }).msg = g.msg
      from rfl, hvalid]
    simp only [insertTask, htask, if_true, queueAodvTask, hidle, List.nil_append]
    rfl
  have hstate : { r₁ with taskQ := [], sent := [] } = r₁ := by rw [← hidle, ← hquiet]
  have hdeliver : step node (.deliver k mem clk) s = some { s with
      router := Function.update s.router w { r₁ with
        sent := []
        taskQ := [taskOf node clk { sender := v, receiver := w, datagram := g }] }
      air := s.air.eraseIdx k } := by
    show (s.air[k]?).bind _ = _
    rw [hc, Option.bind_some, act]
    simp only [Aodv.step, Option.map_some, hr, hin, hquiet, List.flatMap_nil, List.append_nil]
  rw [handles, exec_cons, hdeliver, Option.bind_some, exec_cons]
  show (act node w (.thread mem clk) hears _).bind _ = _
  rw [act]
  simp only [Aodv.step, Function.update_self, runTask, getTask, hstate, hh, Option.map_some,
    Option.bind_some, exec_nil, Function.update_idem]
  rfl

theorem exists_copy (air : List (Copy n)) (hw : w ∈ hears)
    (hg : g.dst = broadcastIp ∨ g.dst = (node w).myIp) :
    ∃ k : ℕ, (air ++ [g].flatMap (copies node v hears))[k]? =
      some { sender := v, receiver := w, datagram := g } := by
  refine List.mem_iff_getElem?.1 (List.mem_append_right air ?_)
  rw [List.flatMap_singleton, copies]
  exact List.mem_map.2 ⟨w, List.mem_filter.2 ⟨hw, by simpa using hg⟩, rfl⟩

end Mesh

/-- A discovery: the nodes `v 0` to `v hops` of the path, the clocks when they handle the
request and the reply, and who hears them. -/
structure Discovery (n : ℕ) where
  hops : ℕ
  v : ℕ → Fin n
  clk : ℕ → Clock
  clk' : ℕ → Clock
  mem : Mem
  hears : ℕ → List (Fin n)

namespace Discovery

open Mesh

variable {n : ℕ} (D : Discovery n) (node : Fin n → Params)

def addr (i : ℕ) : U32 := (node (D.v i)).myIp

/-- Start, and hand the request on `i` times; `ks` tells where the copies are. -/
def request (ks : ℕ → ℕ) : ℕ → List (Mesh.Action n)
  | 0 => [.output (D.v 0) D.mem (D.clk 0) (D.addr node D.hops) (D.hears 0)]
  | i + 1 => request ks i ++ handles (D.v (i + 1)) (ks i) D.mem (D.clk (i + 1)) (D.hears (i + 1))

/-- Hand the reply back `j` times. -/
def reply (ks : ℕ → ℕ) : ℕ → List (Mesh.Action n)
  | 0 => []
  | j + 1 => reply ks j ++ handles (D.v (D.hops - (j + 1))) (ks j) D.mem
      (D.clk' (D.hops - (j + 1))) (D.hears (D.hops - (j + 1)))

variable (s : Mesh n) (first last : Route)

/-- The request as the node `i` sends it. -/
def rreq (i : ℕ) : Rreq :=
  { outRreq (D.clk 0) (D.addr node 0) (D.addr node D.hops) first.numbered (s.router (D.v 0)) with
    metric := BitVec.ofNat 8 i }

def requestFrom (i : ℕ) : Datagram where
  dst := broadcastIp
  ttl := BitVec.ofNat 8 (netDiameter - i)
  msg := .rreq (D.rreq node s first i)

/-- The reply as the node `i` sends it. -/
def rrep (i : ℕ) : Rrep where
  metric := last.metric + BitVec.ofNat 8 (D.hops - i)
  dstIp := D.addr node D.hops
  dstSeq := (D.rreq node s first 0).answerSeq last
  srcIp := D.addr node 0
  lifetime := BitVec.ofNat 32 myRouteTimeout

def replyFrom (i : ℕ) : Datagram where
  dst := D.addr node (i - 1)
  ttl := BitVec.ofNat 8 netDiameter
  msg := .rrep (D.rrep node s first last i)

/-- The route of the node `i` to the start of the path. -/
def toFirst (i : ℕ) : Update where
  ip := D.addr node 0
  nextHop := D.addr node (i - 1)
  metric := BitVec.ofNat 8 i
  seq := first.seq + 1
  dev := some (node (D.v i)).dev

/-- The route of the node `i` to the end of the path. -/
def toLast (i : ℕ) : Update where
  ip := D.addr node D.hops
  nextHop := D.addr node (i + 1)
  metric := last.metric + BitVec.ofNat 8 (D.hops - i)
  seq := (D.rreq node s first 0).answerSeq last
  dev := some (node (D.v i)).dev

/-- What the nodes of the path must be like. -/
structure Ready : Prop where
  hops_pos : 0 < D.hops
  hops_lt : D.hops < netDiameter
  memory : D.mem.Succeeds
  addresses : Function.Injective fun v => (node v).myIp
  distinct : ∀ i ≤ D.hops, ∀ j ≤ D.hops, D.v i = D.v j → i = j
  addr_ne : ∀ i ≤ D.hops, D.addr node i ≠ 0
  hears : ∀ i < D.hops, D.v (i + 1) ∈ D.hears i ∧ D.v i ∈ D.hears (i + 1)
  timely : ∀ i ≤ D.hops, timeBefore ((D.clk i).now + activeRouteTimeout) (D.clk' i).now = false
  subnet : ∀ i ≤ D.hops, aodvSubnetTest (node (D.v i)) (D.addr node D.hops) = true
  /-- each node has its table in order, and nothing else to do -/
  tidy : ∀ i ≤ D.hops, Tidy (s.router (D.v i))
  idle : ∀ i ≤ D.hops, (s.router (D.v i)).taskQ = [] ∧ (s.router (D.v i)).sent = []
  /-- each node has heard its neighbours on the path -/
  before : ∀ i < D.hops, validAodvNeigh (D.clk (i + 1)) (D.addr node i) (s.router (D.v (i + 1)))
  after : ∀ i < D.hops, validAodvNeigh (D.clk' i) (D.addr node (i + 1)) (s.router (D.v i))
  reaches : ∀ i < D.hops, Reaches (node (D.v (i + 1))) (D.addr node i) (s.router (D.v (i + 1)))
  /-- the ends of the path ask and answer for themselves -/
  asks : Asks (node (D.v 0)) (D.clk 0) (D.addr node D.hops) first (s.router (D.v 0))
  own : entryFor (D.addr node D.hops) (s.router (D.v D.hops)) = some last ∧ last.selfRoute = true
  /-- the others have older routes to them at most, and have not seen the request -/
  foreign : ∀ i ≤ D.hops, (0 < i → ∀ r ∈ entryFor (D.addr node 0) (s.router (D.v i)),
      r.selfRoute = false) ∧
    (i < D.hops → ∀ r ∈ entryFor (D.addr node D.hops) (s.router (D.v i)), r.selfRoute = false)
  new : ∀ i ≤ D.hops, 0 < i → findFloodId (D.clk i) (D.addr node 0) (first.rreqId + 1)
    (s.router (D.v i)).floodIdQueue = none
  older : ∀ i ≤ D.hops, 0 < i → (D.toFirst node first i).Wins (D.clk i) (s.router (D.v i))
  /-- the entries for the end of the path, before and after a search for it -/
  suits : ∀ i < D.hops, ∀ r ∈ [s.router (D.v i),
    searched (D.clk i) (D.addr node D.hops) (s.router (D.v i))],
    (D.toLast node s first last i).Suits (D.clk' i) r ∧
      (i = 0 → (D.toLast node s first last i).Wins (D.clk' i) r)

/-- In `t` the node `i` has the valid route of the update `u`, or a newer one with the
same next hop. -/
structure Has (t : Mesh n) (i : ℕ) (u : Update) : Prop extends Tidy (t.router (D.v i)) where
  entry : ∃ r, entryFor u.ip (t.router (D.v i)) = some r ∧ r.routeValid = true ∧
    r.nextHop = u.nextHop ∧ Serial.before r.seq u.seq = false

/-- The packets for the end of the path that wait at its start, with the one that has started the
discovery. -/
def waiting : List QueueEntry :=
  ((s.router (D.v 0)).queue.enqueue
    { postRouting := true, daddr := D.addr node D.hops }).list.filter
      (PacketQueue.ipCmp (D.addr node D.hops))

/-- The node at the start of the path has let all its packets go, and does not ask again. -/
structure Released (t : Mesh n) : Prop where
  accepted : (t.router (D.v 0)).queue.reinjected = (s.router (D.v 0)).queue.reinjected ++
    (D.waiting node s).map fun e => (e, .accept)
  noneWaits : ∀ e ∈ (t.router (D.v 0)).queue.list, PacketQueue.ipCmp (D.addr node D.hops) e = false
  noTimer : findTimer (D.addr node D.hops) .resendRreq (t.router (D.v 0)) = none

/-- The outcome of the discovery. -/
structure Found (t : Mesh n) : Prop extends D.Released node s t where
  toFirst : ∀ i ≤ D.hops, 0 < i → D.Has t i (D.toFirst node first i) ∧
    nextNode node (D.addr node 0) t (D.v i) = some (D.v (i - 1))
  toLast : ∀ i < D.hops, D.Has t i (D.toLast node s first last i) ∧
    nextNode node (D.addr node D.hops) t (D.v i) = some (D.v (i + 1))

variable {D node s first last} {i : ℕ} {t : Mesh n}

/-! ## Messages and updates -/

/-- The task in which the node `i + 1` gets the request. -/
def requestTask (D : Discovery n) (node : Fin n → Params) (s : Mesh n) (first : Route) (i : ℕ) :
    Task :=
  taskOf node (D.clk (i + 1)) ⟨D.v i, D.v (i + 1), D.requestFrom node s first i⟩

/-- The task in which the node `i` gets the reply. -/
def replyTask (D : Discovery n) (node : Fin n → Params) (s : Mesh n) (first last : Route) (i : ℕ) :
    Task :=
  taskOf node (D.clk' i) ⟨D.v (i + 1), D.v i, D.replyFrom node s first last (i + 1)⟩

theorem ofNat_succ (i : ℕ) : (BitVec.ofNat 8 (i + 1) : Byte) = BitVec.ofNat 8 i + 1 :=
  BitVec.ofNat_add i 1

theorem update_rreq (i : ℕ) : (D.rreq node s first i).update (D.requestTask node s first i) =
    D.toFirst node first (i + 1) := by
  rw [toFirst, ofNat_succ]
  rfl

theorem metric_succ {i : ℕ} (hi : i < D.hops) :
    last.metric + BitVec.ofNat 8 (D.hops - (i + 1)) + 1 =
      last.metric + BitVec.ofNat 8 (D.hops - i) := by
  rw [show D.hops - i = D.hops - (i + 1) + 1 by omega, ofNat_succ, BitVec.add_assoc]

theorem update_rrep {i : ℕ} (hi : i < D.hops) :
    (D.rrep node s first last (i + 1)).update (D.replyTask node s first last i) =
      D.toLast node s first last i := by
  rw [toLast, ← metric_succ hi]
  rfl

theorem passed_rreq {i : ℕ} (hi : i < netDiameter) :
    (D.rreq node s first i).passed (D.requestTask node s first i) =
      D.requestFrom node s first (i + 1) := by
  have httl : BitVec.ofNat 8 (netDiameter - i) - 1 =
      (BitVec.ofNat 8 (netDiameter - (i + 1)) : Byte) := by
    rw [show netDiameter - i = netDiameter - (i + 1) + 1 by omega, ofNat_succ,
      BitVec.add_sub_cancel]
  rw [requestFrom, ← httl, rreq, rreq, ofNat_succ i]
  rfl

theorem passed_rrep {i : ℕ} (hi : i < D.hops) :
    (D.rrep node s first last (i + 1)).passed (D.addr node (i - 1)) =
      D.replyFrom node s first last i := by
  rw [replyFrom, rrep, rrep, ← metric_succ hi]
  rfl

theorem valid_request (r : Router) :
    validAodvPacket (D.requestFrom node s first i).msg r = (true, counted r) := rfl

theorem valid_reply (r : Router) :
    validAodvPacket (D.replyFrom node s first last i).msg r = (true, counted r) := rfl

theorem Ready.v_ne (h : D.Ready node s first last) {i j : ℕ} (hi : i ≤ D.hops) (hj : j ≤ D.hops)
    (hne : i ≠ j) : D.v i ≠ D.v j := fun he => hne (h.distinct i hi j hj he)

theorem Ready.ne (h : D.Ready node s first last) {i j : ℕ} (hi : i ≤ D.hops) (hj : j ≤ D.hops)
    (hne : i ≠ j) : D.addr node i ≠ D.addr node j :=
  fun he => h.v_ne hi hj hne (h.addresses he)

theorem Ready.heeds (h : D.Ready node s first last) (hi : i < D.hops) :
    Heeds (D.clk (i + 1)) (D.requestTask node s first i) (D.rreq node s first i)
      (counted (s.router (D.v (i + 1)))) where
  toTidy := (h.tidy (i + 1) hi).congr rfl rfl rfl
  ttl := by
    have hlt := h.hops_lt
    have hten : netDiameter = 10 := rfl
    show ¬(BitVec.ofNat 8 (netDiameter - i) : Byte) ≤ 1
    rw [BitVec.le_def, BitVec.toNat_ofNat, Nat.mod_eq_of_lt (by omega)]
    show ¬netDiameter - i ≤ 1
    omega
  new := h.new (i + 1) hi (Nat.succ_pos i)
  neigh := h.before i hi
  srcIp_ne := h.addr_ne 0 (Nat.zero_le _)
  wins := by
    rw [update_rreq]
    exact h.older (i + 1) hi (Nat.succ_pos i)

theorem Ready.accepts (h : D.Ready node s first last) (hi : i < D.hops) {r : Router} (hr : Tidy r)
    (hneigh : validAodvNeigh (D.clk' i) (D.addr node (i + 1)) r = true) :
    Accepts (D.clk' i) (D.replyTask node s first last i) (D.rrep node s first last (i + 1))
      (counted r) where
  toTidy := hr.congr rfl rfl rfl
  noHello := h.ne (Nat.zero_le _) le_rfl (by omega)
  neigh := hneigh
  dstIp_ne := h.addr_ne D.hops le_rfl

/-- The entry for the end of the path, when it may have been marked. -/
theorem Ready.suits_ages (h : D.Ready node s first last) (hi : i < D.hops) {r : Router}
    (hage : Ages (D.clk i) (D.addr node D.hops) (s.router (D.v i)) r) :
    (D.toLast node s first last i).Suits (D.clk' i) r ∧
      (i = 0 → (D.toLast node s first last i).Wins (D.clk' i) r) := by
  obtain ⟨hsuits, hwins⟩ := h.suits i hi _ List.mem_cons_self
  obtain ⟨hsuits', hwins'⟩ := h.suits i hi _ (List.mem_cons_of_mem _ List.mem_cons_self)
  exact ⟨hsuits.later (h.tidy i hi.le) hsuits' hage,
    fun hzero => (hwins hzero).later (h.tidy i hi.le) (hwins' hzero) hage⟩

/-! ## The request -/

/-- The node `i` waits for the reply. -/
structure Awaits (D : Discovery n) (node : Fin n → Params) (s : Mesh n) (first last : Route) (i : ℕ)
    (r : Router) : Prop extends Tidy r where
  idle : r.taskQ = []
  quiet : r.sent = []
  neigh : validAodvNeigh (D.clk' i) (D.addr node (i + 1)) r = true
  suits : (D.toLast node s first last i).Suits (D.clk' i) r ∧
    (i = 0 → (D.toLast node s first last i).Wins (D.clk' i) r)
  start : i = 0 → ∃ x, entryFor (D.addr node 0) r = some x ∧ x.selfRoute = true
  queue : i = 0 → r.queue = (s.router (D.v 0)).queue.enqueue
    { postRouting := true, daddr := D.addr node D.hops }
  back : 0 < i → ∃ x, entryFor (D.addr node 0) r =
    some ((D.toFirst node first i).route (D.clk i) x) ∧ x.selfRoute = false
  reaches : 0 < i → Reaches (node (D.v i)) (D.addr node (i - 1)) r

/-- The request has come as far as the node `i`, which has sent it on. -/
structure Asking (D : Discovery n) (node : Fin n → Params) (s : Mesh n) (first last : Route) (i : ℕ)
    (t : Mesh n) : Prop where
  copy : ∃ k : ℕ, t.air[k]? =
    some { sender := D.v i, receiver := D.v (i + 1), datagram := D.requestFrom node s first i }
  ahead : ∀ j ≤ D.hops, i < j → t.router (D.v j) = s.router (D.v j)
  behind : ∀ j ≤ i, D.Awaits node s first last j (t.router (D.v j))

theorem validAodvNeigh_congr {clk : Clock} {ip : U32} {r r' : Router} (h : r'.neighs = r.neighs) :
    validAodvNeigh clk ip r' = validAodvNeigh clk ip r := by
  rw [validAodvNeigh, validAodvNeigh, findAodvNeigh, findAodvNeigh, h]

/-- A node that has learnt the route to the start of the path waits for the reply. -/
theorem Ready.awaits (h : D.Ready node s first last) (hi : i + 1 < D.hops) {r : Router}
    (hr : Learns (D.clk (i + 1)) (D.toFirst node first (i + 1)) (s.router (D.v (i + 1))) r) :
    D.Awaits node s first last (i + 1) { r with sent := [] } where
  toTidy := hr.toTidy.congr rfl rfl rfl
  idle := hr.taskQ.trans (h.idle (i + 1) hi.le).1
  quiet := rfl
  neigh := (validAodvNeigh_congr hr.neighs).trans (h.after (i + 1) hi)
  suits := h.suits_ages hi
    ((hr.others _ (h.ne le_rfl (Nat.zero_le _) (by omega))).trans (.of_eq rfl))
  start := fun hzero => absurd hzero (Nat.succ_ne_zero i)
  queue := fun hzero => absurd hzero (Nat.succ_ne_zero i)
  back := fun hpos => by
    obtain ⟨x, hx, hself⟩ := hr.entry
    refine ⟨x, hx, hself.trans ?_⟩
    have hforeign := (h.foreign (i + 1) hi.le).1 hpos
    rw [Option.any_eq_false]
    exact fun y hy => by simpa using hforeign y hy
  reaches := fun _ => by
    by_cases hzero : i = 0
    · subst hzero
      obtain ⟨x, hx, -⟩ := hr.entry
      exact ⟨_, hx, rfl⟩
    · exact ((h.reaches i (by omega)).ages
        (hr.others _ (h.ne (by omega) (Nat.zero_le _) hzero))).ages
        (.of_eq rfl : Ages (D.clk 0) _ _ _)

theorem request_update {ks : ℕ → ℕ} {j k : ℕ} (h : i ≤ j) :
    D.request node (Function.update ks j k) i = D.request node ks i := by
  induction i with
  | zero => rfl
  | succ i ih => rw [request, request, ih (by omega), Function.update_of_ne (by omega)]

/-- Node 0 asks. -/
theorem Ready.start (h : D.Ready node s first last) (ks : ℕ → ℕ) :
    ∃ t, exec (Mesh.step node) (D.request node ks 0) s = some t ∧
      D.Asking node s first last 0 t := by
  have hpos := h.hops_pos
  have hown : first.ip = D.addr node 0 := (h.asks.toTidy.entryFor_iff.1 h.asks.entry).2
  obtain ⟨r, rfl, htidy, hentry, hages, hneighs, htasks, hsent, hqueue⟩ :=
    h.asks.output h.memory
  obtain ⟨hidle, hquiet⟩ := h.idle 0 (Nat.zero_le _)
  have hreq : first.request (D.clk 0) (D.addr node D.hops) (s.router (D.v 0)) =
      D.requestFrom node s first 0 := by
    rw [Route.request, hown]
    rfl
  rw [hquiet, hreq, List.nil_append] at hsent
  refine ⟨moved s (D.v 0) _ (s.air ++ List.flatMap (copies node (D.v 0) (D.hears 0)) _), rfl, ?_,
    fun j hj hlt => router_moved_of_ne (h.v_ne hj (Nat.zero_le _) (by omega)), fun j hj => ?_⟩
  · rw [hsent]
    exact exists_copy _ (h.hears 0 hpos).1 (.inl rfl)
  · obtain rfl : j = 0 := by omega
    rw [router_moved_self]
    exact {
      toTidy := htidy.congr rfl rfl rfl
      idle := htasks.trans hidle
      quiet := rfl
      neigh := (validAodvNeigh_congr hneighs).trans (h.after 0 hpos)
      suits := h.suits_ages hpos
        ((hages _ (h.ne le_rfl (Nat.zero_le _) hpos.ne')).trans (.of_eq rfl))
      start := fun _ => ⟨first.numbered, hentry, h.asks.self⟩
      queue := fun _ => hqueue
      back := fun hlt => absurd hlt (lt_irrefl 0)
      reaches := fun hlt => absurd hlt (lt_irrefl 0) }

/-- A node on the way hands the request on. -/
theorem Asking.next (hs : D.Asking node s first last i t) (h : D.Ready node s first last)
    (hi : i + 1 < D.hops) : ∃ k t',
      exec (Mesh.step node) (handles (D.v (i + 1)) k D.mem (D.clk (i + 1)) (D.hears (i + 1))) t =
        some t' ∧ D.Asking node s first last (i + 1) t' := by
  obtain ⟨k, hk⟩ := hs.copy
  have hrouter := hs.ahead (i + 1) hi.le (Nat.lt_succ_self i)
  obtain ⟨hidle, hquiet⟩ := h.idle (i + 1) hi.le
  obtain ⟨hsrc, hdst⟩ := h.foreign (i + 1) hi.le
  have hne : D.addr node D.hops ≠ D.addr node 0 := h.ne le_rfl (Nat.zero_le _) (by omega)
  obtain ⟨r, hr, hlearns, hsent⟩ := (h.heeds (by omega)).relay (p := node (D.v (i + 1)))
    h.memory (h.subnet (i + 1) hi.le) hne (hdst hi)
  rw [update_rreq] at hlearns
  rw [passed_rreq (by have := h.hops_lt; omega), sent_counted, hquiet, List.nil_append] at hsent
  refine ⟨k, _, exec_handles hk hrouter (valid_request _) hidle hquiet h.memory hr, ?_,
    fun j hj hlt => ?_, fun j hj => ?_⟩
  · rw [hsent]
    exact exists_copy _ (h.hears (i + 1) hi).1 (.inl rfl)
  · rw [router_moved_of_ne (h.v_ne hj hi.le (by omega))]
    exact hs.ahead j hj (by omega)
  · by_cases hji : j = i + 1
    · subst hji
      rw [router_moved_self]
      exact h.awaits hi (learns_of_counted hlearns)
    · rw [router_moved_of_ne (h.v_ne (by omega) hi.le hji)]
      exact hs.behind j (by omega)

theorem exec_request_succ {ks : ℕ → ℕ} {k : ℕ} {t' : Mesh n}
    (ht : exec (Mesh.step node) (D.request node ks i) s = some t)
    (ht' : exec (Mesh.step node)
      (handles (D.v (i + 1)) k D.mem (D.clk (i + 1)) (D.hears (i + 1))) t = some t') :
    exec (Mesh.step node) (D.request node (Function.update ks i k) (i + 1)) s = some t' := by
  rw [request, exec_append, request_update le_rfl, ht, Function.update_self]
  exact ht'

/-- The request reaches the node at the end of the path. -/
theorem Ready.asking (h : D.Ready node s first last) (hi : i < D.hops) :
    ∃ ks t, exec (Mesh.step node) (D.request node ks i) s = some t ∧
      D.Asking node s first last i t := by
  induction i with
  | zero =>
    obtain ⟨t, ht, hs⟩ := h.start fun _ => 0
    exact ⟨_, t, ht, hs⟩
  | succ i ih =>
    obtain ⟨ks, t, ht, hs⟩ := ih (by omega)
    obtain ⟨k, t', ht', hs'⟩ := hs.next h hi
    exact ⟨Function.update ks i k, t', exec_request_succ ht ht', hs'⟩

/-! ## The reply -/

/-- The reply has come back as far as the node `i`. -/
structure Answering (D : Discovery n) (node : Fin n → Params) (s : Mesh n) (first last : Route)
    (i : ℕ) (t : Mesh n) : Prop where
  copy : 0 < i → ∃ k : ℕ, t.air[k]? = some
    { sender := D.v i, receiver := D.v (i - 1), datagram := D.replyFrom node s first last i }
  behind : ∀ j < i, D.Awaits node s first last j (t.router (D.v j))
  toFirst : ∀ j ≤ D.hops, i ≤ j → 0 < j → D.Has t j (D.toFirst node first j)
  toLast : ∀ j < D.hops, i ≤ j → D.Has t j (D.toLast node s first last j)
  released : i = 0 → D.Released node s t

/-- The node at the end of the path answers. -/
theorem Asking.answer (hs : D.Asking node s first last i t) (h : D.Ready node s first last)
    (hi : i + 1 = D.hops) : ∃ k t',
      exec (Mesh.step node) (handles (D.v (i + 1)) k D.mem (D.clk (i + 1)) (D.hears (i + 1))) t =
        some t' ∧ D.Answering node s first last (i + 1) t' := by
  obtain ⟨k, hk⟩ := hs.copy
  have hrouter := hs.ahead (i + 1) hi.le (Nat.lt_succ_self i)
  obtain ⟨hidle, hquiet⟩ := h.idle (i + 1) hi.le
  obtain ⟨hown, hself⟩ := h.own
  have hip : last.ip = D.addr node D.hops := ((h.tidy D.hops le_rfl).entryFor_iff.1 hown).2
  have hown' : entryFor (D.addr node D.hops) (s.router (D.v (i + 1))) = some last := by rwa [hi]
  have hreach : D.addr node i = D.addr node 0 ∨
      Reaches (node (D.v (i + 1))) (D.addr node i) (counted (s.router (D.v (i + 1)))) :=
    .inr (h.reaches i (by omega))
  have hreply : ((D.rreq node s first i).numbered last).reply (D.addr node i) (D.addr node 0) =
      D.replyFrom node s first last (i + 1) := by
    rw [replyFrom, rrep, hi, Nat.sub_self, show BitVec.ofNat 8 0 = 0#8 from rfl,
      BitVec.add_zero, ← hip, ← hi]
    rfl
  obtain ⟨r, hr, hlearned, hsent⟩ := (h.heeds (by omega)).answer (p := node (D.v (i + 1)))
    h.memory (h.subnet (i + 1) hi.le) (h.ne le_rfl (Nat.zero_le _) (by omega)) hown' hself
    (h.ne (by omega) le_rfl (by omega)) rfl hreach
  rw [update_rreq] at hlearned
  have hsent' : r.sent = [D.replyFrom node s first last (i + 1)] := by
    rw [hsent, sent_counted, hquiet, ← hreply]
    rfl
  refine ⟨k, _, exec_handles hk hrouter (valid_request _) hidle hquiet h.memory hr, fun _ => ?_,
    fun j hj => ?_, fun j hj hij hpos => ?_, fun j hj hij => by omega, fun hzero => by omega⟩
  · rw [hsent']
    exact exists_copy _ (h.hears i (by omega)).2 (.inr rfl)
  · rw [router_moved_of_ne (h.v_ne (by omega) hi.le hj.ne)]
    exact hs.behind j (by omega)
  · obtain rfl : j = i + 1 := by omega
    obtain ⟨x, hx, -⟩ := hlearned.entry
    constructor
    all_goals rw [router_moved_self]
    · exact hlearned.toTidy.congr rfl rfl rfl
    · exact ⟨(D.toFirst node first (i + 1)).route (D.clk (i + 1)) x, hx, rfl, rfl,
        Serial.before_self _⟩

/-- The route to the start of the path has not run out when the reply comes. -/
theorem Ready.refresh_route (h : D.Ready node s first last) (hi : i ≤ D.hops) (x : Route) :
    ((D.toFirst node first i).route (D.clk i) x).refresh (D.clk' i) =
      (D.toFirst node first i).route (D.clk i) x := by
  have hstale : ((D.toFirst node first i).route (D.clk i) x).stale (D.clk' i) = false := by
    rw [Route.stale, show ((D.toFirst node first i).route (D.clk i) x).lifetime =
      (D.clk i).now + activeRouteTimeout from rfl, h.timely i hi]
    rfl
  rw [Route.refresh, hstale, if_neg Bool.false_ne_true]

theorem Has.moved {u : Update} {j : ℕ} {w : Fin n} {r : Router} {air : List (Copy n)}
    (h : D.Has t j u) (hne : D.v j ≠ w) : D.Has (moved t w r air) j u := by
  constructor
  all_goals rw [router_moved_of_ne hne]
  · exact h.toTidy
  · exact h.entry

/-- Packets for the destination go to the next hop. -/
theorem Has.nextNode {u : Update} {w : Fin n} (h : D.Has t i u)
    (hinj : Function.Injective fun v => (node v).myIp) (hhop : u.nextHop = (node w).myIp)
    (hne : D.v i ≠ w) : nextNode node u.ip t (D.v i) = some w := by
  obtain ⟨r, hr, hvalid, hrhop, -⟩ := h.entry
  obtain ⟨hmem, hip⟩ := h.toTidy.entryFor_iff.1 hr
  have hedge : Edge node u.ip t (D.v i) w :=
    ⟨fun hself => hne hself.1, r, hmem, hip, hvalid, hrhop.trans hhop⟩
  cases hf : Mesh.nextNode node u.ip t (D.v i) with
  | none => exact absurd hedge (not_edge_of_nextNode hf w)
  | some w' =>
    obtain ⟨-, r', hmem', hip', -, hhop'⟩ := edge_of_nextNode hf
    have he : r' = r := h.toTidy.eq_of_ip hmem hmem' (hip'.trans hip.symm)
    have hw : (node w').myIp = (node w).myIp := by rw [← hhop', he, hrhop, hhop]
    exact congrArg some (hinj hw)

/-- The routes when the node `i` has learnt the one to the end of the path. -/
theorem Answering.adopts (hs : D.Answering node s first last (i + 1) t)
    (h : D.Ready node s first last) (hi : i < D.hops) {r : Router} {air : List (Copy n)}
    (hr : Adopts (D.clk' i) (D.toLast node s first last i) (t.router (D.v i)) r)
    (hcopy : 0 < i → ∃ k : ℕ, air[k]? = some
      { sender := D.v i, receiver := D.v (i - 1), datagram := D.replyFrom node s first last i })
    (hreleased : i = 0 → D.Released node s (moved t (D.v i) r air)) :
    D.Answering node s first last i (moved t (D.v i) r air) where
  copy := hcopy
  behind j hj := by
    rw [router_moved_of_ne (h.v_ne (by omega) hi.le hj.ne)]
    exact hs.behind j (by omega)
  toFirst j hj hij hpos := by
    by_cases hji : j = i
    · subst hji
      obtain ⟨x, hx, -⟩ := (hs.behind j (Nat.lt_succ_self j)).back hpos
      have hage := hr.others (D.addr node 0) (h.ne (Nat.zero_le _) le_rfl (by omega))
      constructor
      all_goals rw [router_moved_self]
      · exact hr.toTidy.congr rfl rfl rfl
      · refine ⟨(D.toFirst node first j).route (D.clk j) x, ?_, rfl, rfl, Serial.before_self _⟩
        rcases hage with ha | ha
        · exact ha.trans hx
        · exact ha.trans (by rw [hx, Option.map_some, h.refresh_route hj])
    · exact (hs.toFirst j hj (by omega) hpos).moved (h.v_ne hj hi.le hji)
  toLast j hj hij := by
    by_cases hji : j = i
    · subst hji
      obtain ⟨x, hx, hvalid, hhop, hseq, -⟩ := hr.entry
      constructor
      all_goals rw [router_moved_self]
      · exact hr.toTidy.congr rfl rfl rfl
      · exact ⟨x, hx, hvalid, hhop, hseq⟩
    · exact (hs.toLast j hj (by omega)).moved (h.v_ne hj.le hi.le hji)
  released := hreleased

/-- A node on the way hands the reply back, and node 0 lets its packets go. -/
theorem Answering.next (hs : D.Answering node s first last (i + 1) t)
    (h : D.Ready node s first last) (hi : i < D.hops) : ∃ k t',
      exec (Mesh.step node) (handles (D.v i) k D.mem (D.clk' i) (D.hears i)) t = some t' ∧
        D.Answering node s first last i t' := by
  obtain ⟨k, hk⟩ := hs.copy (Nat.succ_pos i)
  have hawaits := hs.behind i (Nat.lt_succ_self i)
  have haccepts := h.accepts hi hawaits.toTidy hawaits.neigh
  have hsuits : ((D.rrep node s first last (i + 1)).update (D.replyTask node s first last i)).Suits
      (D.clk' i) (counted (t.router (D.v i))) := by
    rw [update_rrep hi]
    exact hawaits.suits.1
  rcases Nat.eq_zero_or_pos i with hzero | hpos
  · obtain ⟨x, hx, hself⟩ := hawaits.start hzero
    have hwins : ((D.rrep node s first last (i + 1)).update (D.replyTask node s first last i)).Wins
        (D.clk' i) (counted (t.router (D.v i))) := by
      rw [update_rrep hi]
      exact hawaits.suits.2 hzero
    obtain ⟨r, hr, hadopts, hsent, hqueue, htimers⟩ :=
      haccepts.arrive (p := node (D.v i)) h.memory hwins hx hself
    rw [update_rrep hi] at hadopts
    refine ⟨k, _, exec_handles hk rfl (valid_reply _) hawaits.idle hawaits.quiet h.memory hr,
      hs.adopts h hi (adopts_of_counted hadopts) (fun hpos => by omega) fun _ =>
        ⟨?_, fun e he => ?_, ?_⟩⟩
    all_goals subst hzero
    · rw [router_moved_self]
      show r.queue.reinjected = _
      rw [hqueue, PacketQueue.reinjected_sendIp]
      show (t.router (D.v 0)).queue.reinjected ++
        ((t.router (D.v 0)).queue.list.filter _).map _ = _
      rw [hawaits.queue rfl, PacketQueue.reinjected_enqueue]
      rfl
    · rw [router_moved_self] at he
      change e ∈ r.queue.list at he
      rw [hqueue, PacketQueue.list_sendIp] at he
      have hkept := (List.mem_filter.1 he).2
      rwa [Bool.not_eq_true'] at hkept
    · rw [router_moved_self]
      show r.timerQueue.find? _ = none
      rw [htimers]
      refine List.find?_eq_none.2 fun τ hτ => ?_
      have hkept := (List.mem_filter.1 hτ).2
      rwa [Bool.not_eq_true', ← Bool.not_eq_true] at hkept
  · obtain ⟨x, hx, hself⟩ := hawaits.back hpos
    obtain ⟨r, hr, hadopts, hsent⟩ := haccepts.relay (p := node (D.v i)) h.memory hsuits hx hself
      (h.ne (by omega) le_rfl (by omega)) (hawaits.reaches hpos)
    rw [update_rrep hi] at hadopts
    have hsent' : r.sent = [D.replyFrom node s first last i] := by
      rw [hsent, sent_counted, hawaits.quiet, ← passed_rrep hi]
      rfl
    refine ⟨k, _, exec_handles hk rfl (valid_reply _) hawaits.idle hawaits.quiet h.memory hr,
      hs.adopts h hi (adopts_of_counted hadopts) (fun _ => ?_) fun hzero => by omega⟩
    rw [hsent']
    have hheard := (h.hears (i - 1) (by omega)).2
    rw [Nat.sub_add_cancel hpos] at hheard
    exact exists_copy _ hheard (.inr rfl)

theorem reply_update {ks : ℕ → ℕ} {j k : ℕ} (h : i ≤ j) :
    D.reply (Function.update ks j k) i = D.reply ks i := by
  induction i with
  | zero => rfl
  | succ i ih => rw [reply, reply, ih (by omega), Function.update_of_ne (by omega)]

theorem Ready.answering (h : D.Ready node s first last) (hi : i ≤ D.hops) :
    ∃ ks ks' t, exec (Mesh.step node) (D.request node ks D.hops ++ D.reply ks' i) s = some t ∧
      D.Answering node s first last (D.hops - i) t := by
  have hpos := h.hops_pos
  induction i with
  | zero =>
    obtain ⟨ks, t, ht, hs⟩ := h.asking (i := D.hops - 1) (by omega)
    obtain ⟨k, t', ht', hs'⟩ := hs.answer h (by omega)
    have hexec := exec_request_succ ht ht'
    rw [Nat.sub_add_cancel hpos] at hexec hs'
    refine ⟨Function.update ks (D.hops - 1) k, fun _ => 0, t', ?_, hs'⟩
    rwa [reply, List.append_nil]
  | succ i ih =>
    obtain ⟨ks, ks', t, ht, hs⟩ := ih (by omega)
    have hnext : D.hops - i = D.hops - (i + 1) + 1 := by omega
    rw [hnext] at hs
    obtain ⟨k, t', ht', hs'⟩ := hs.next h (by omega)
    refine ⟨ks, Function.update ks' i k, t', ?_, hs'⟩
    rw [reply, ← List.append_assoc, exec_append, reply_update le_rfl, ht, Function.update_self]
    exact ht'

/-- The discovery comes to its end, and all nodes of the path have the routes. -/
theorem route_found (h : D.Ready node s first last) :
    ∃ ks ks' t, exec (Mesh.step node) (D.request node ks D.hops ++ D.reply ks' D.hops) s = some t ∧
      D.Found node s first last t := by
  obtain ⟨ks, ks', t, ht, hs⟩ := h.answering le_rfl
  rw [Nat.sub_self] at hs
  refine ⟨ks, ks', t, ht, hs.released rfl, fun i hi hpos => ?_, fun i hi => ?_⟩
  · have hhas := hs.toFirst i hi (Nat.zero_le _) hpos
    exact ⟨hhas, hhas.nextNode h.addresses rfl (h.v_ne hi (by omega) (by omega))⟩
  · have hhas := hs.toLast i hi (Nat.zero_le _)
    exact ⟨hhas, hhas.nextNode h.addresses rfl (h.v_ne hi.le hi (by omega))⟩

/-! ## Three nodes in a line -/

/-- Node 1 has heard both others, which have heard node 1. -/
def greetings : List (Mesh.Action 3) := lineRun.take 17

def greeted : Mesh 3 := (exec (Mesh.step threeNodes) greetings loaded).getD loaded

/-- Node 0 asks for node 2. -/
def line : Discovery 3 where
  hops := 2
  v i := ⟨i % 3, Nat.mod_lt i (by decide)⟩
  clk _ := clockAt 1500
  clk' _ := clockAt 1700
  mem := .plenty
  hears _ := List.finRange 3

theorem line_ready :
    line.Ready threeNodes greeted (devEntry (threeNodes 0)) (devEntry (threeNodes 2)) where
  hops_pos := by decide
  hops_lt := by decide
  memory := Mem.plenty_succeeds
  addresses := threeNodes_injective
  distinct := by decide +kernel
  addr_ne := by decide +kernel
  hears := by decide +kernel
  timely := by decide +kernel
  subnet := by decide +kernel
  tidy := by decide +kernel
  idle := by decide +kernel
  before := by decide +kernel
  after := by decide +kernel
  reaches := by decide +kernel
  asks := {
    toTidy := by decide +kernel
    unrouted := by decide +kernel
    noTimer := by decide +kernel
    entry := by decide +kernel
    self := rfl }
  own := by decide +kernel
  foreign := by decide +kernel
  new := by decide +kernel
  older := by decide +kernel
  suits := by decide +kernel

theorem route_found_line : ∃ ks ks' t, exec (Mesh.step threeNodes)
      (line.request threeNodes ks line.hops ++ line.reply ks' line.hops) greeted = some t ∧
    line.Found threeNodes greeted (devEntry (threeNodes 0)) (devEntry (threeNodes 2)) t :=
  route_found line_ready

end Discovery

end MobileCloudCaching.Aodv
