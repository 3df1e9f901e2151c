import MobileCloudCaching.Aodv.Offers
import MobileCloudCaching.Library.Cycles
import Mathlib.Data.List.FinRange

/-!
# Loops of routes in a network

Nodes exchange the messages that their modules send.  Any step of a node may be next; what it
sends reaches any nodes, late, in any order, or never.  A route that a node forgets when its
neighbour falls silent, or whose number it lowers, can come back from a message that is still on
its way, and lead through a node that relies on the forgotten one.  As long as no step does that,
the routes to each destination form no loop.
-/

namespace MobileCloudCaching.Aodv

open Transition Cycles

/-! ## The network -/

/-- A datagram on its way. -/
structure Copy (n : ℕ) where
  sender : Fin n
  receiver : Fin n
  datagram : Datagram

structure Mesh (n : ℕ) where
  router : Fin n → Router
  air : List (Copy n)

namespace Mesh

variable {n : ℕ}

/-- What can happen in the network; `hears` are the nodes that what is sent will reach. -/
inductive Action (n : ℕ)
  | output (v : Fin n) (mem : Mem) (clk : Clock) (daddr : U32) (hears : List (Fin n))
  | timer (v : Fin n) (clk : Clock)
  | thread (v : Fin n) (mem : Mem) (clk : Clock) (hears : List (Fin n))
  | deliver (k : ℕ) (mem : Mem) (clk : Clock)
  | lose (k : ℕ)

variable (node : Fin n → Params)

/-- The copies of a datagram that `v` sends. -/
def copies (v : Fin n) (hears : List (Fin n)) (g : Datagram) : List (Copy n) :=
  (hears.filter fun w => g.dst = broadcastIp ∨ g.dst = (node w).myIp).map fun w =>
    { sender := v, receiver := w, datagram := g }

/-- The packet that arrives. -/
def arrival (c : Copy n) : Arrival where
  srcIp := (node c.sender).myIp
  dstIp := c.datagram.dst
  ttl := c.datagram.ttl
  dev := (node c.receiver).dev
  msg := c.datagram.msg

/-- The node `v` makes a step. -/
def act (v : Fin n) (e : Event) (hears : List (Fin n)) (s : Mesh n) : Option (Mesh n) :=
  (Aodv.step (node v) e (s.router v)).map fun t =>
    { router := Function.update s.router v { t with sent := [] }
      air := s.air ++ t.sent.flatMap (copies node v hears) }

def step : Action n → Mesh n → Option (Mesh n)
  | .output v mem clk daddr hears, s => act node v (.output mem clk daddr) hears s
  | .timer v clk, s => act node v (.timer clk) [] s
  | .thread v mem clk hears, s => act node v (.thread mem clk) hears s
  | .deliver k mem clk, s =>
    (s.air[k]?).bind fun c =>
      act node c.receiver (.packet mem clk (arrival node c)) [] { s with air := s.air.eraseIdx k }
  | .lose k, s => some { s with air := s.air.eraseIdx k }

/-- The node `v` has a valid route to `d` through `w`; the route of
the destination to itself is no edge. -/
def Edge (d : U32) (s : Mesh n) (v w : Fin n) : Prop :=
  ¬(v = w ∧ (node v).myIp = d) ∧
    ∃ r ∈ (s.router v).routes, r.ip = d ∧ r.routeValid = true ∧ r.nextHop = (node w).myIp

instance (d : U32) (s : Mesh n) (v w : Fin n) : Decidable (Edge node d s v w) := by
  unfold Edge
  infer_instance

/-- The routes to each destination form no loop. -/
def LoopFree (s : Mesh n) : Prop := ∀ d, Acyclic (Edge node d s)

/-! ## The condition -/

/-- The routes of `w` through `v`. -/
def routesThrough (s : Mesh n) (v w : Fin n) : List AodvDst :=
  ((s.router w).routes.filter fun r => r.routeValid && r.nextHop == (node v).myIp &&
    r.ip != (node v).myIp).map
    fun r => { ip := r.ip, seq := r.seq }

/-- The route that a message of `v` offers. -/
def offered (v : Fin n) (msg : Message) : Option AodvDst :=
  msg.offer.filter fun d => d.ip != (node v).myIp && d.ip != 0

/-- The route that the message in a task offers, which has come from `v`. -/
def taskOffer (v : Fin n) (τ : Task) : Option AodvDst :=
  match τ.type with
  | .packet msg => if τ.srcIp = (node v).myIp then offered node v msg else none
  | _ => none

/-- What others rely on at `v`: their routes through it, and its
messages that have not been handled. -/
def demands (s : Mesh n) (v : Fin n) : List AodvDst :=
  (List.finRange n).flatMap (routesThrough node s v) ++
    (s.air.filterMap fun c => if c.sender = v then offered node v c.datagram.msg else none) ++
    (List.finRange n).flatMap fun w => (s.router w).taskQ.filterMap (taskOffer node v)

/-- The step keeps what others rely on. -/
def Action.Careful (node : Fin n → Params) : Action n → Mesh n → Prop
  | .output v _ _ _ _, s => LowSeqs (s.router v)
  | .thread v mem clk _, s => ∀ τ ∈ (s.router v).taskQ.head?, LowSeqs (s.router v) ∧
    τ.NotForSubnet (node v) mem clk { s.router v with taskQ := (s.router v).taskQ.tail } ∧
    τ.Careful (node v) mem clk (demands node s v)
      { s.router v with taskQ := (s.router v).taskQ.tail }
  | _, _ => True

instance : ∀ (a : Action n) (s : Mesh n), Decidable (a.Careful node s)
  | .output v _ _ _ _, s => inferInstanceAs (Decidable (LowSeqs (s.router v)))
  | .thread v mem clk _, s =>
      inferInstanceAs (Decidable (∀ τ ∈ (s.router v).taskQ.head?, LowSeqs (s.router v) ∧
      τ.NotForSubnet (node v) mem clk { s.router v with taskQ := (s.router v).taskQ.tail } ∧
      τ.Careful (node v) mem clk (demands node s v)
        { s.router v with taskQ := (s.router v).taskQ.tail }))
  | .timer _ _, _ | .deliver _ _ _, _ | .lose _, _ => isTrue trivial

/-! ## What others rely on -/

section Demands

variable {node} {s : Mesh n} {v w : Fin n} {d : AodvDst}

theorem offered_iff {msg : Message} :
    offered node v msg = some d ↔ msg.offer = some d ∧ d.ip ≠ (node v).myIp ∧ d.ip ≠ 0 := by
  simp [offered, Option.filter_eq_some_iff]

theorem taskOffer_iff {τ : Task} : taskOffer node v τ = some d ↔
    ∃ msg, τ.type = .packet msg ∧ τ.srcIp = (node v).myIp ∧ offered node v msg = some d := by
  unfold taskOffer
  split
  · rename_i msg hτ
    simp [hτ]
  · rename_i hτ
    exact iff_of_false (by simp) fun ⟨msg, h, _⟩ => hτ msg h

theorem mem_routesThrough : d ∈ routesThrough node s v w ↔
    ∃ r ∈ (s.router w).routes, r.routeValid = true ∧
    r.nextHop = (node v).myIp ∧ r.ip ≠ (node v).myIp ∧ { ip := r.ip, seq := r.seq } = d := by
  simp [routesThrough, and_assoc]

theorem mem_demands : d ∈ demands node s v ↔ (∃ w, d ∈ routesThrough node s v w) ∨
    (∃ c ∈ s.air, c.sender = v ∧ offered node v c.datagram.msg = some d) ∨
    ∃ w, ∃ τ ∈ (s.router w).taskQ, taskOffer node v τ = some d := by
  simp [demands]

end Demands

/-! ## The invariant -/

section Invariant

variable {node} {s : Mesh n} {v w : Fin n} {d : AodvDst} {t : Router} {air : List (Copy n)}

/-- Others rely only on routes that are there, and the routes form no loop. -/
structure Inv (node : Fin n → Params) (s : Mesh n) : Prop where
  nodes : ∀ v, NodeInv (node v) (s.router v)
  quiet : ∀ v, (s.router v).sent = []
  served : ∀ v, ∀ d ∈ demands node s v, Serves d (s.router v)
  loopFree : LoopFree node s

/-- The network after a step that brings `v` to the state `t`. -/
def moved (s : Mesh n) (v : Fin n) (t : Router) (air : List (Copy n)) : Mesh n where
  router := Function.update s.router v { t with sent := [] }
  air := air

theorem router_moved_self : (moved s v t air).router v = { t with sent := [] } :=
  Function.update_self ..

theorem router_moved_of_ne (h : w ≠ v) : (moved s v t air).router w = s.router w :=
  Function.update_of_ne h ..

/-- Where the tasks and the copies of the next state come from. -/
structure ComesFrom (node : Fin n → Params) (s : Mesh n) (v : Fin n) (t : Router)
    (air : List (Copy n)) : Prop where
  tasks : ∀ τ ∈ t.taskQ, ∀ msg, τ.type = .packet msg → τ ∈ (s.router v).taskQ ∨
    ∃ c ∈ s.air, τ.srcIp = (node c.sender).myIp ∧ msg = c.datagram.msg
  copies : ∀ c ∈ air, c ∈ s.air ∨ c.sender = v ∧ c.datagram ∈ t.sent

/-- A route that `v` has through `w` after the step makes a demand that there was before. -/
theorem demand_of_route (hk : Keeps (node v) (demands node s v) (s.router v) t) {r : Route}
    (hr : r ∈ t.routes) (hv : r.routeValid = true) (hhop : r.nextHop = (node w).myIp)
    (hw : r.ip ≠ (node w).myIp) :
    { ip := r.ip, seq := r.seq } ∈ demands node s w := by
  rcases hk.indirect r hr hv (by rw [hhop]; exact hw.symm) with
    ⟨x, hx, hxv, hxip, hxhop, hxseq⟩ | ⟨τ, msg, hq, hτ, hoffer, hvia, -⟩
  · exact mem_demands.2 (.inl ⟨v, mem_routesThrough.2 ⟨x, hx, hxv, hxhop.trans hhop, hxip ▸ hw, by
      rw [hxip, hxseq]⟩⟩)
  · exact mem_demands.2 (.inr (.inr ⟨v, τ, List.mem_of_head? hq,
      taskOffer_iff.2 ⟨msg, hτ, hvia.symm.trans hhop,
      offered_iff.2 ⟨hoffer, hw, (hk.inv.plain r hr).ip_ne⟩⟩⟩))

/-- What others rely on after the step. -/
theorem demands_moved (hinj : Function.Injective fun v => (node v).myIp) (h : Inv node s)
    (hk : Keeps (node v) (demands node s v) (s.router v) t) (hfrom : ComesFrom node s v t air)
    (hd : d ∈ demands node (moved s v t air) w) : d ∈ demands node s w ∨ w = v ∧ Serves d t := by
  rcases mem_demands.1 hd with ⟨u, hroute⟩ | ⟨c, hc, hsender, hoffer⟩ | ⟨u, τ, hτ, hoffer⟩
  · obtain ⟨r, hr, hv, hhop, hw, rfl⟩ := mem_routesThrough.1 hroute
    by_cases hu : u = v
    · subst hu
      rw [router_moved_self] at hr
      exact .inl (demand_of_route hk hr hv hhop hw)
    · rw [router_moved_of_ne hu] at hr
      exact .inl (mem_demands.2 (.inl ⟨u, mem_routesThrough.2 ⟨r, hr, hv, hhop, hw, rfl⟩⟩))
  · rcases hfrom.copies c hc with hold | ⟨hv, hsent⟩
    · exact .inl (mem_demands.2 (.inr (.inl ⟨c, hold, hsender, hoffer⟩)))
    · obtain rfl : w = v := hsender.symm.trans hv
      obtain ⟨hmsg, hne, hzero⟩ := offered_iff.1 hoffer
      rcases hk.backed _ hsent with hold | hbacked
      · rw [h.quiet w] at hold
        exact absurd hold List.not_mem_nil
      · exact .inr ⟨rfl, hbacked d hmsg hne hzero⟩
  · by_cases hu : u = v
    · subst hu
      rw [router_moved_self] at hτ
      obtain ⟨msg, htype, hsrc, hoffer'⟩ := taskOffer_iff.1 hoffer
      rcases hfrom.tasks τ hτ msg htype with hold | ⟨c, hc, hsender, rfl⟩
      · exact .inl (mem_demands.2 (.inr (.inr ⟨u, τ, hold, hoffer⟩)))
      · exact .inl (mem_demands.2 (.inr (.inl ⟨c, hc, hinj (hsender.symm.trans hsrc), hoffer'⟩)))
    · rw [router_moved_of_ne hu] at hτ
      exact .inl (mem_demands.2 (.inr (.inr ⟨u, τ, hτ, hoffer⟩)))

/-- No route leads on from its destination. -/
theorem Edge.ne (hinj : Function.Injective fun v => (node v).myIp)
    (hplain : ∀ r ∈ (s.router v).routes, r.Plain (node v)) {ip : U32} (h : Edge node ip s v w) :
    (node v).myIp ≠ ip := by
  obtain ⟨hne, r, hr, rfl, -, hhop⟩ := h
  intro hv
  have hdirect := (hplain r hr).direct (.inr hv.symm)
  exact hne ⟨hinj (hv.trans (hdirect.symm.trans hhop)), hv⟩

/-- Along a path the entries do not get older, up to the destination. -/
theorem serves_along (hinj : Function.Injective fun v => (node v).myIp) (h : Inv node s)
    {q ip : U32} {x y : Fin n} (hxy : Edge node ip s x y)
    (hx : (node x).myIp = ip ∨ Serves { ip := ip, seq := q } (s.router x)) :
    (node y).myIp = ip ∨ Serves { ip := ip, seq := q } (s.router y) := by
  have hne := hxy.ne hinj (h.nodes x).plain
  obtain ⟨-, r, hr, rfl, hv, hhop⟩ := hxy
  obtain ⟨x', hx', hxip, hle⟩ := hx.resolve_left hne
  rw [(h.nodes x).toOrdered.eq_of_ip hr hx' hxip] at hle
  by_cases hy : (node y).myIp = r.ip
  · exact .inl hy
  · have hdemand : { ip := r.ip, seq := r.seq } ∈ demands node s y :=
      mem_demands.2 (.inl ⟨x, mem_routesThrough.2 ⟨r, hr, hv, hhop, Ne.symm hy, rfl⟩⟩)
    obtain ⟨z, hz, hzip, hzle⟩ := h.served y _ hdemand
    exact .inr ⟨z, hz, hzip, BitVec.le_trans hle hzle⟩

/-- A new route is newer than the entry at hand, so that no path leads back. -/
theorem loopFree_moved (hinj : Function.Injective fun v => (node v).myIp) (h : Inv node s)
    (hk : Keeps (node v) (demands node s v) (s.router v) t) : LoopFree node (moved s v t air) := by
  intro ip
  refine (h.loopFree ip).of_update (v := v) fun x y hxy => ?_
  by_cases hx : x = v
  · subst hx
    have hne := hxy.ne hinj (by rw [router_moved_self]; exact hk.inv.plain)
    obtain ⟨hself, r, hr, rfl, hv, hhop⟩ := hxy
    rw [router_moved_self] at hr
    by_cases hy : (node y).myIp = r.ip
    · refine .inr ⟨rfl, fun hpath => hne ?_⟩
      refine mark_of_reach (S := fun z => (node z).myIp = r.ip) (fun a b hab ha => ?_) hy hpath
      exact absurd ha (hab.ne hinj (h.nodes a).plain)
    · rcases hk.indirect r hr hv (by rw [hhop]; exact hy) with
        ⟨x', hx', hxv, hxip, hxhop, -⟩ | ⟨τ, msg, hq, hτ, hoffer, hvia, hnot⟩
      · exact .inl ⟨hself, x', hx', hxip, hxv, hxhop.trans hhop⟩
      · refine .inr ⟨rfl, fun hpath => ?_⟩
        have hdemand := demand_of_route hk hr hv hhop (Ne.symm hy)
        have hend := mark_of_reach
          (S := fun z => (node z).myIp = r.ip ∨ Serves { ip := r.ip, seq := r.seq } (s.router z))
          (fun a b hab ha => serves_along hinj h hab ha) (.inr (h.served y _ hdemand)) hpath
        exact hend.elim hne hnot
  · obtain ⟨hself, r, hr, hrest⟩ := hxy
    rw [router_moved_of_ne hx] at hr
    exact .inl ⟨hself, r, hr, hrest⟩

theorem Inv.moved (hinj : Function.Injective fun v => (node v).myIp) (h : Inv node s)
    (hk : Keeps (node v) (demands node s v) (s.router v) t) (hfrom : ComesFrom node s v t air) :
    Inv node (moved s v t air) where
  nodes w := by
    by_cases hw : w = v
    · subst hw
      rw [router_moved_self]
      exact hk.inv.congr rfl rfl ⟨hk.inv.retries.retries, hk.inv.retries.packets⟩ hk.inv.timers
    · rw [router_moved_of_ne hw]
      exact h.nodes w
  quiet w := by
    by_cases hw : w = v
    · subst hw
      rw [router_moved_self]
    · rw [router_moved_of_ne hw]
      exact h.quiet w
  served w d hd := by
    by_cases hw : w = v
    · subst hw
      rw [router_moved_self]
      rcases demands_moved hinj h hk hfrom hd with hold | ⟨-, hserves⟩
      · exact (hk.serves d hold).congr rfl
      · exact hserves.congr rfl
    · rw [router_moved_of_ne hw]
      rcases demands_moved hinj h hk hfrom hd with hold | ⟨hv, -⟩
      · exact h.served w d hold
      · exact absurd hv hw
  loopFree := loopFree_moved hinj h hk

end Invariant

/-! ## Steps -/

section Steps

variable {node} {s s' : Mesh n} {v : Fin n} {e : Event} {hears : List (Fin n)} {t : Router}
    {air : List (Copy n)}

theorem mem_copies {c : Copy n} {g : List Datagram} (h : c ∈ g.flatMap (copies node v hears)) :
    c.sender = v ∧ c.datagram ∈ g := by
  obtain ⟨d, hd, hc⟩ := List.mem_flatMap.1 h
  obtain ⟨w, -, rfl⟩ := List.mem_map.1 hc
  exact ⟨rfl, hd⟩

theorem act_some (h : act node v e hears { s with air := air } = some s') : ∃ t,
    Aodv.step (node v) e (s.router v) = some t ∧
    s' = moved s v t (air ++ t.sent.flatMap (copies node v hears)) := by
  obtain ⟨t, ht, rfl⟩ := Option.map_eq_some_iff.1 h
  exact ⟨t, ht, rfl⟩

/-- A step of a node that keeps what others rely on. -/
theorem Inv.act (hinj : Function.Injective fun v => (node v).myIp) (h : Inv node s)
    (hact : act node v e hears { s with air := air } = some s') (hair : ∀ c ∈ air, c ∈ s.air)
    (hstep : ∀ t, Aodv.step (node v) e (s.router v) = some t →
      Keeps (node v) (demands node s v) (s.router v) t ∧
      ∀ τ ∈ t.taskQ, ∀ msg, τ.type = .packet msg → τ ∈ (s.router v).taskQ ∨
        ∃ c ∈ s.air, τ.srcIp = (node c.sender).myIp ∧ msg = c.datagram.msg) : Inv node s' := by
  obtain ⟨t, ht, rfl⟩ := act_some hact
  obtain ⟨hk, htasks⟩ := hstep t ht
  refine h.moved hinj hk ⟨htasks, fun c hc => ?_⟩
  exact (List.mem_append.1 hc).imp (hair c) mem_copies

/-- A message that is lost was relied on in vain. -/
theorem Inv.lose (h : Inv node s) (hair : ∀ c ∈ air, c ∈ s.air) :
    Inv node { s with air := air } where
  nodes := h.nodes
  quiet := h.quiet
  served v d hd := by
    refine h.served v d (mem_demands.2 ?_)
    rcases mem_demands.1 hd with hroute | ⟨c, hc, hoffer⟩ | htask
    · exact .inl hroute
    · exact .inr (.inl ⟨c, hair c hc, hoffer⟩)
    · exact .inr (.inr htask)
  loopFree := h.loopFree

theorem keeps_output (h : Inv node s) {mem : Mem} {clk : Clock} {daddr : U32}
    (hlow : LowSeqs (s.router v))
    (ht : Aodv.step (node v) (.output mem clk daddr) (s.router v) = some t) :
    Keeps (node v) (demands node s v) (s.router v) t ∧ t.taskQ = (s.router v).taskQ := by
  have hretries := (h.nodes v).retries.step ht
  obtain rfl : output (node v) mem clk daddr (s.router v) = t := Option.some.inj ht
  have hchores : chores (output (node v) mem clk daddr (s.router v)) = _ := chores_output daddr
  obtain ⟨-, hq, -⟩ := chores_iff.1 hchores
  exact ⟨(h.nodes v).output hlow (h.served v) daddr hretries, hq.trans taskQ_insertRreqTimer⟩

theorem keeps_timer (h : Inv node s) {clk : Clock}
    (ht : Aodv.step (node v) (.timer clk) (s.router v) = some t) :
    Keeps (node v) (demands node s v) (s.router v) t ∧
      ∀ τ ∈ t.taskQ, ∀ msg, τ.type = .packet msg → τ ∈ (s.router v).taskQ := by
  have hv := h.nodes v
  have hretries := hv.retries.step ht
  obtain rfl : timerQueueSignal clk (s.router v) = t := Option.some.inj ht
  refine ⟨NodeInv.keeps (hv.congr rfl rfl hretries fun τ hτ => ?_) (h.served v) rfl rfl,
    fun τ hτ msg htype => ?_⟩
  · exact hv.timers τ ((List.dropWhile_sublist _).subset hτ)
  · rcases List.mem_append.1 hτ with hτ | hτ
    · exact hτ
    · exact absurd htype (hv.timers τ ((List.takeWhile_sublist _).subset hτ) msg)

theorem keeps_thread (h : Inv node s) {mem : Mem} {clk : Clock}
    (hok : Action.Careful node (.thread v mem clk hears) s)
    (ht : Aodv.step (node v) (.thread mem clk) (s.router v) = some t) :
    Keeps (node v) (demands node s v) (s.router v) t ∧ ∀ τ ∈ t.taskQ, τ ∈ (s.router v).taskQ := by
  have hretries := (h.nodes v).retries.step ht
  rcases runTask_cases ht with ⟨-, rfl⟩ | ⟨τ, hhead, -, hh⟩
  · exact ⟨NodeInv.keeps (h.nodes v) (h.served v) rfl rfl, fun _ hτ => hτ⟩
  · obtain ⟨hlow, hsub, hcare⟩ := hok τ hhead
    obtain ⟨-, hq, -⟩ := chores_iff.1 (chores_handle hh)
    refine ⟨(h.nodes v).handle hlow (h.served v) hhead hsub hcare hh hretries, fun τ' hτ' => ?_⟩
    rw [hq, taskQ_scheduled] at hτ'
    exact List.mem_of_mem_tail hτ'

theorem keeps_packet (h : Inv node s) {mem : Mem} {clk : Clock} {a : Arrival}
    (ht : Aodv.step (node v) (.packet mem clk a) (s.router v) = some t) :
    Keeps (node v) (demands node s v) (s.router v) t ∧
      ∀ τ ∈ t.taskQ, τ ∈ (s.router v).taskQ ∨ τ = taskOfPacket clk a := by
  have hv := h.nodes v
  have hretries := hv.retries.step ht
  obtain ⟨m, q, rfl, hq⟩ := packetIn_cases (Option.some.inj ht)
  refine ⟨NodeInv.keeps (hv.congr rfl rfl hretries hv.timers) (h.served v) rfl rfl, fun τ hτ => ?_⟩
  rcases List.mem_append.1 hτ with hτ | hτ
  · exact .inl hτ
  · rcases hq with rfl | rfl
    · exact absurd hτ List.not_mem_nil
    · exact .inr (List.mem_singleton.1 hτ)

theorem Inv.step {a : Action n} (hinj : Function.Injective fun v => (node v).myIp) (h : Inv node s)
    (hok : a.Careful node s) (hs : step node a s = some s') : Inv node s' := by
  cases a with
  | output v mem clk daddr hears =>
    refine h.act hinj hs (fun _ => id) fun t ht => ?_
    obtain ⟨hk, hq⟩ := keeps_output h hok ht
    exact ⟨hk, fun τ hτ _ _ => .inl (hq ▸ hτ)⟩
  | timer v clk =>
    refine h.act hinj hs (fun _ => id) fun t ht => ?_
    obtain ⟨hk, hq⟩ := keeps_timer h ht
    exact ⟨hk, fun τ hτ msg htype => .inl (hq τ hτ msg htype)⟩
  | thread v mem clk hears =>
    refine h.act hinj hs (fun _ => id) fun t ht => ?_
    obtain ⟨hk, hq⟩ := keeps_thread h hok ht
    exact ⟨hk, fun τ hτ _ _ => .inl (hq τ hτ)⟩
  | deliver k mem clk =>
    obtain ⟨c, hc, hs⟩ := Option.bind_eq_some_iff.1 hs
    refine h.act hinj hs (fun _ => List.mem_of_mem_eraseIdx) fun t ht => ?_
    obtain ⟨hk, hq⟩ := keeps_packet h ht
    refine ⟨hk, fun τ hτ msg htype => ?_⟩
    rcases hq τ hτ with hold | rfl
    · exact .inl hold
    · exact .inr ⟨c, List.mem_of_getElem? hc, rfl, (TaskType.packet.inj htype).symm⟩
  | lose k =>
    rw [← Option.some.inj hs]
    exact h.lose fun _ => List.mem_of_mem_eraseIdx

end Steps

/-! ## Runs -/

/-- The entries that start-up makes. -/
theorem mem_initialRoutes_cases {p : Params} {r : Route} (h : r ∈ initialRoutes p) :
    r = loopbackEntry p ∨ (∃ ip netmask, ip ≠ 0 ∧ r = subnetEntry ip netmask) ∨
    p.myIp ≠ 0 ∧ r = devEntry p := by
  have hdev : ∀ {l : List Route}, (r ∈ if p.myIp = 0 then l else placeRoute (devEntry p) l) →
      r ∈ l ∨ p.myIp ≠ 0 ∧ r = devEntry p := fun h => by
    split at h
    · exact .inl h
    · exact (mem_placeRoute.1 h).symm.imp_right fun he => ⟨‹_›, he⟩
  have hlo : r ∈ placeRoute (loopbackEntry p) [] → r = loopbackEntry p := fun h =>
    (mem_placeRoute.1 h).resolve_right List.not_mem_nil
  unfold initialRoutes at h
  rcases hdev h with h | h
  · split at h
    · exact .inl (hlo h)
    · split at h
      · exact .inl (hlo h)
      · rcases mem_placeRoute.1 h with rfl | h
        · exact .inr (.inl ⟨_, _, ‹_›, rfl⟩)
        · exact .inl (hlo h)
  · exact .inr (.inr h)

theorem plain_initialRoutes {p : Params} {r : Route} (h : r ∈ initialRoutes p) :
    r.Plain p ∧ r.nextHop = r.ip := by
  have hdirect : r.nextHop = r.ip ∧ r.ip ≠ 0 := by
    rcases mem_initialRoutes_cases h with rfl | ⟨ip, netmask, hip, rfl⟩ | ⟨hip, rfl⟩
    · refine ⟨rfl, ?_⟩
      show loopbackIp p ≠ 0
      unfold loopbackIp
      cases p.order <;> decide
    · exact ⟨rfl, hip⟩
    · exact ⟨rfl, hip⟩
  have hself := (mem_initialRoutes h).2.1
  exact ⟨⟨hdirect.2, fun hno => Bool.noConfusion (hself.symm.trans hno), fun _ => hdirect.1⟩,
    hdirect.1⟩

/-- What start-up leaves at a node. -/
theorem nodeInv_initModule {p : Params} {clk : Clock} {s : Router} (hp : p.AddressesDiffer)
    (h : initModule p clk = some s) : NodeInv p s ∧ s.sent = [] ∧
    ∀ r ∈ s.routes, r.nextHop = r.ip := by
  obtain ⟨hqueue, hq, htimers⟩ := initModule_agenda h
  have hroutes : s.routes = initialRoutes p ∧ s.sent = [] := by
    rw [initModule_eq] at h
    rw [← Option.some.inj h]
    exact ⟨rfl, rfl⟩
  refine ⟨⟨.initModule hp h, fun r hr => (plain_initialRoutes (hroutes.1 ▸ hr)).1,
    ⟨fun τ hτ htype => ?_, ?_⟩,
    fun τ hτ msg htype => ?_⟩, hroutes.2, fun r hr => (plain_initialRoutes (hroutes.1 ▸ hr)).2⟩
  · rw [hq, List.append_nil] at hτ
    rcases htimers τ hτ with he | he <;> exact TaskType.noConfusion (htype.symm.trans he)
  · rw [hqueue]
    exact fun e he => absurd he List.not_mem_nil
  · rcases htimers τ hτ with he | he <;> exact TaskType.noConfusion (htype.symm.trans he)

/-- When the network starts, all routes are direct and nothing is on its way. -/
theorem Inv.init {s : Mesh n} {clk : Fin n → Clock} (hp : ∀ v, (node v).AddressesDiffer)
    (hinj : Function.Injective fun v => (node v).myIp)
    (hinit : ∀ v, initModule (node v) (clk v) = some (s.router v)) (hair : s.air = []) :
    Inv node s where
  nodes v := (nodeInv_initModule (hp v) (hinit v)).1
  quiet v := (nodeInv_initModule (hp v) (hinit v)).2.1
  served v d hd := by
    rcases mem_demands.1 hd with ⟨w, hroute⟩ | ⟨c, hc, -⟩ | ⟨w, τ, hτ, -⟩
    · obtain ⟨r, hr, -, hhop, hne, -⟩ := mem_routesThrough.1 hroute
      have hdirect := (nodeInv_initModule (hp w) (hinit w)).2.2 r hr
      exact absurd (hdirect.symm.trans hhop) hne
    · rw [hair] at hc
      exact absurd hc List.not_mem_nil
    · rw [(initModule_agenda (hinit w)).2.1] at hτ
      exact absurd hτ List.not_mem_nil
  loopFree d := by
    have hdest : ∀ {x y}, Edge node d s x y → (node y).myIp = d := fun ⟨_, r, hr, hip, _, hhop⟩ =>
      hhop.symm.trans (((nodeInv_initModule (hp _) (hinit _)).2.2 r hr).trans hip)
    intro x hx
    obtain ⟨y, hxy, -⟩ := Relation.TransGen.head'_iff.1 hx
    obtain ⟨z, -, hzx⟩ := Relation.TransGen.tail'_iff.1 hx
    exact hxy.ne hinj (nodeInv_initModule (hp x) (hinit x)).1.plain (hdest hzx)

/-! ## Three nodes -/

def threeNodes (v : Fin 3) : Params := { plainNode with myIp := peer (1 + v.val) }

theorem threeNodes_differ (v : Fin 3) : (threeNodes v).AddressesDiffer :=
  ⟨by revert v; decide, fun q hq => absurd hq (Option.not_mem_none q)⟩

theorem threeNodes_injective : Function.Injective fun v => (threeNodes v).myIp := by
  have hne : ∀ v w : Fin 3, (threeNodes v).myIp = (threeNodes w).myIp → v = w := by decide
  exact fun v w => hne v w

/-- The three nodes when their modules have been loaded. -/
def loaded : Mesh 3 where
  router v := (initModule (threeNodes v) (clockAt 0)).getD {}
  air := []

theorem loaded_init (v : Fin 3) :
    initModule (threeNodes v) (clockAt 0) = some (loaded.router v) := by
  show _ = some ((initModule (threeNodes v) (clockAt 0)).getD {})
  rw [initModule_eq]
  rfl

/-- The timer of `v` expires, and its thread says hello. -/
def saysHello (v : Fin 3) (now : ℕ) (hears : List (Fin 3)) : List (Action 3) :=
  .timer v (clockAt now) :: List.replicate 2 (.thread v .plenty (clockAt now) hears)

/-- The `k`th message on its way arrives at `v` and is handled. -/
def arrives (k : ℕ) (v : Fin 3) (now : ℕ) (hears : List (Fin 3)) : List (Action 3) :=
  [.deliver k .plenty (clockAt now), .thread v .plenty (clockAt now) hears]

/-- Nodes 0 and 2 hear node 1, which hears both.  Node 0 asks for a route to node 2, one
message is lost, and the answer comes back. -/
def lineRun : List (Action 3) :=
  saysHello 0 1000 [1] ++ arrives 0 1 1000 [] ++ saysHello 1 1000 [0, 2] ++ arrives 0 0 1000 [] ++
    arrives 0 2 1000 [] ++ saysHello 2 1000 [1] ++ arrives 0 1 1000 [] ++
    [.output 0 .plenty (clockAt 1500) (peer 3) [1]] ++ arrives 0 1 1500 [0, 2] ++ [.lose 0] ++
    arrives 0 2 1600 [1] ++ arrives 0 1 1700 [0] ++ arrives 0 0 1800 []

/-- Node 0 reaches node 2 through node 1, and a newer request of node 2 comes to node 0. -/
def newerRun : List (Action 3) :=
  saysHello 2 1000 [0, 1] ++ arrives 0 0 1000 [] ++ arrives 0 1 1000 [] ++
    saysHello 0 1000 [1] ++ arrives 0 1 1000 [] ++ saysHello 1 1000 [0] ++ arrives 0 0 1000 [] ++
    [.output 2 .plenty (clockAt 3500) (peer 9) [1]] ++ arrives 0 1 3500 [0] ++
    arrives 0 0 3500 [] ++ saysHello 0 4000 [1] ++ arrives 0 1 4000 [] ++
    [.output 2 .plenty (clockAt 4019) (peer 10) [0], .deliver 0 .plenty (clockAt 4019)]

/-- Nodes 0 and 1 hear each other and, once, a hello of node 2.  Its first request comes to
node 0 alone, and what node 0 sends on stays on its way; its second one comes to node 1 alone,
which sends it on to node 0.  Then node 2 has been silent for too long, node 1 removes the
entry, and the first request arrives. -/
def timeoutRun : List (Action 3) :=
  saysHello 2 1000 [0, 1] ++ arrives 0 0 1000 [] ++ arrives 0 1 1000 [] ++
    saysHello 0 1000 [1] ++ arrives 0 1 1000 [] ++ saysHello 1 1000 [0] ++ arrives 0 0 1000 [] ++
    [.output 2 .plenty (clockAt 3000) (peer 9) [0]] ++ arrives 0 0 3000 [1] ++
    [.output 2 .plenty (clockAt 3000) (peer 10) [1]] ++ arrives 1 1 3000 [0] ++
    arrives 1 0 3000 [] ++
    saysHello 0 4000 [1] ++ arrives 1 1 4000 [] ++
    .timer 1 (clockAt 4100) :: List.replicate 3 (.thread 1 .plenty (clockAt 4100) []) ++
    arrives 0 1 4200 []

end Mesh

end MobileCloudCaching.Aodv
