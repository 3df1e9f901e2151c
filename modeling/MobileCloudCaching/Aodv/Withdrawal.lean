import MobileCloudCaching.Aodv.Paths
import MobileCloudCaching.Aodv.Errors

/-!
# A broken link is reported to all who use it

A node that drops a silent neighbour marks the routes through it and broadcasts a route error.  Each
node whose routes lead through the sender marks these in turn, and reports on them.  When the errors
get through along a path, no node of the path is left with a valid route over the broken link.
-/

namespace MobileCloudCaching.Aodv

open Transition Mesh

variable {p : Params} {mem : Mem} {clk : Clock} {s t : Router} {ip d : U32} {r : Route} {τ : Task}

/-- A route error for the destinations in `l`. -/
def errorOf (l : List AodvDst) : Datagram where
  dst := broadcastIp
  ttl := BitVec.ofNat 8 netDiameter
  msg := .rerr { dstCount := BitVec.ofNat 8 l.length, dsts := l }

/-- The entry for `d` leads to `hop`. -/
def leadsTo (d hop : U32) (s : Router) : Bool :=
  (entryFor d s).any fun r => !r.selfRoute && r.nextHop == hop

/-- The errors that `s` has sent on the way to `t` are one for `l`, which names `d`. -/
structure Reports (l : List AodvDst) (s t : Router) : Prop where
  sent : t.sent = s.sent ++ [errorOf l]
  taskQ : t.taskQ = s.taskQ

/-! ## The node that drops its neighbour -/

theorem routeValid_afterRerr (h : r.nextHop = ip) (hself : r.selfRoute = false) :
    (r.afterRerr clk ip).routeValid = false := by
  have hthrough : r.leadsThrough ip = true := decide_eq_true ⟨h, hself⟩
  unfold Route.afterRerr
  split
  · rfl
  · rename_i hv
    simpa [hthrough] using hv

theorem ptr_afterRerr : (r.afterRerr clk ip).ptr = r.ptr := by
  unfold Route.afterRerr
  split <;> rfl

theorem ip_afterRerr : (r.afterRerr clk ip).ip = r.ip := by
  unfold Route.afterRerr
  split <;> rfl

theorem netmask_afterRerr : (r.afterRerr clk ip).netmask = r.netmask := by
  unfold Route.afterRerr
  split <;> rfl

/-- No entry for `d` is valid when those left are marked entries for it. -/
theorem routeTo_of_marked (clk : Clock) {l : List Route} (hs : Tidy s)
    (hsub : ∀ x ∈ l, ∃ y ∈ s.routes, x = y.afterRerr clk ip) (hroutes : t.routes = l)
    (hd : leadsTo d ip s = true) : routeTo d t = false := by
  rw [routeTo, Option.any_eq_false]
  intro x hx
  have hcompare := (List.mem_filter.1 (List.mem_of_getLast? hx)).2
  obtain ⟨y, hy, rfl⟩ := hsub x (hroutes ▸ mem_entryFor hx)
  have hmask : (y.afterRerr clk ip).netmask = broadcastIp := netmask_afterRerr.trans (hs.hosts y hy)
  have hyd : y.ip = d := ip_afterRerr.symm.trans ((compare_of_broadcast hmask).1 hcompare)
  have hentry := hs.entryFor_iff.2 ⟨hy, hyd⟩
  rw [leadsTo, hentry, Option.any_some, Bool.and_eq_true, Bool.not_eq_true', beq_iff_eq] at hd
  simpa using routeValid_afterRerr hd.2 hd.1

theorem leadsTo_searched (ip' : U32) :
    leadsTo d ip (searched clk ip' s) = leadsTo d ip s := by
  have hage : Ages clk d s (searched clk ip' s) := .search ip'
  unfold leadsTo
  rcases hage with he | he <;> rw [he]
  rw [Option.any_map]
  exact congrFun (congrArg Option.any (funext fun r => by
    rw [Route.selfRoute_refresh, Route.nextHop_refresh])) _

/-- The state of a node that has marked the routes through `ip` and reported on them. -/
def reported (clk : Clock) (ip : U32) (l : List AodvDst) (s : Router) : Router :=
  { s with routes := s.routes.map (Route.afterRerr clk ip), sent := s.sent ++ [errorOf l] }

/-- The destinations that `gen_rerr` reports. -/
def lostDsts (ip : U32) (l : List Route) : List AodvDst :=
  ((lostRoutes ip l).map Route.listing).reverse

theorem genRerr_of_lost (hmem : mem.Succeeds) (hr : r ∈ s.routes) (hhop : r.nextHop = ip)
    (hself : r.selfRoute = false) :
    genRerr mem clk ip s = reported clk ip (lostDsts ip s.routes) s := by
  have hlost : r ∈ lostRoutes ip s.routes :=
    List.mem_filter.2 ⟨hr, decide_eq_true ⟨hhop, hself⟩⟩
  have hpos : (lostRoutes ip s.routes).length ≠ 0 :=
    fun h => List.not_mem_nil (List.length_eq_zero_iff.1 h ▸ hlost)
  rw [genRerr_of_mem clk fun i _ => hmem .rerrRoute i, if_neg hpos, hmem .rerr 0]
  rfl

/-- The entry for the neighbour is marked with the others, and then removed. -/
theorem remove_reported (clk : Clock) (hs : Tidy s) (hr : r ∈ s.routes) (hhop : r.nextHop = ip)
    (hself : r.selfRoute = false) (l : List AodvDst) :
    ∃ x, routeAt r.ptr (reported clk ip l s) = some x ∧ x.routeValid = false ∧
      removeAodvRoute x.ptr (reported clk ip l s) = some { reported clk ip l s with
        routes := (reported clk ip l s).routes.filter fun y => y.ptr != x.ptr } := by
  obtain ⟨x, hx⟩ : ∃ x, routeAt r.ptr (reported clk ip l s) = some x := by
    refine Option.isSome_iff_exists.1 (List.find?_isSome.2 ⟨r.afterRerr clk ip,
      List.mem_map_of_mem hr, ?_⟩)
    rw [ptr_afterRerr]
    exact beq_self_eq_true _
  have hptr : x.ptr = r.ptr := by simpa using List.find?_some hx
  obtain ⟨y, hy, rfl⟩ := List.mem_map.1 (List.mem_of_find?_eq_some hx)
  obtain rfl : y = r := hs.distinct.eq_of_ptr hy hr (ptr_afterRerr.symm.trans hptr)
  exact ⟨_, hx, routeValid_afterRerr hhop hself, if_pos hs.unlocked⟩

/-- A node that drops a neighbour reports all that it has reached through it. -/
theorem Tidy.drop (h : Tidy s) (clk : Clock) (hmem : mem.Succeeds)
    (hn : (s.neighs.any fun n => n.ip == ip) = true) (hlost : leadsTo ip ip s = true) :
    ∃ t l, deleteAodvNeigh mem clk ip s = some t ∧ Reports l s t ∧ l.length ≤ s.routes.length ∧
      ∀ d, leadsTo d ip s = true → d ∈ l.map AodvDst.ip ∧ routeTo d t = false := by
  have hs : Tidy (searched clk ip s) := h.search ip
  obtain ⟨r, hr, hthrough⟩ := (Option.any_eq_true _ _).1 hlost
  rw [Bool.and_eq_true, Bool.not_eq_true', beq_iff_eq] at hthrough
  have hf : foundRoute clk ip s = some (r.refresh clk) := by
    rw [foundRoute_entryFor, hr]
    rfl
  obtain ⟨hmemb, hip⟩ := hs.entryFor_iff.1 (show entryFor ip (searched clk ip s) = _ by
    rw [h.entryFor_searched, hr, Option.map_some])
  have hhop : (r.refresh clk).nextHop = ip := Route.nextHop_refresh.trans hthrough.2
  have hself : (r.refresh clk).selfRoute = false := Route.selfRoute_refresh.trans hthrough.1
  -- the state in which `gen_rerr` runs
  set u : Router := deleteKernelRouteEntry (r.refresh clk).ip (r.refresh clk).netmask
    (searched clk ip (deleteTimer ip .neighbor
      { s with neighs := s.neighs.eraseP fun n => n.ip == ip })) with hu
  have hroutes : u.routes = (searched clk ip s).routes := rfl
  have htidy : Tidy u := hs.congr hroutes rfl rfl
  obtain ⟨x, hx, hxv, hremove⟩ := remove_reported clk htidy hmemb hhop hself
    (lostDsts ip u.routes)
  refine ⟨{ reported clk ip (lostDsts ip u.routes) u with
      routes := (reported clk ip (lostDsts ip u.routes) u).routes.filter fun y => y.ptr != x.ptr },
    lostDsts ip u.routes, ?_, ⟨rfl, rfl⟩, ?_, fun d hd => ⟨?_, ?_⟩⟩
  · have hf' : foundRoute clk ip
        (deleteTimer ip .neighbor { s with neighs := s.neighs.eraseP fun n => n.ip == ip }) =
        some (r.refresh clk) := hf
    have hgen : genRerr mem clk (r.refresh clk).ip u =
        reported clk ip (lostDsts ip u.routes) u := by
      rw [hip]
      exact genRerr_of_lost hmem hmemb hhop hself
    rw [deleteAodvNeigh, if_pos hn]
    simp only [findAodvRoute_eq, hf']
    rw [if_pos (hhop.trans hip.symm), ← hu, hgen, hx, Option.bind_eq_bind, Option.bind_some,
      if_neg (by rw [hxv]; exact Bool.false_ne_true)]
    exact hremove
  · rw [lostDsts, List.length_reverse, List.length_map, hroutes]
    refine (List.length_filter_le _ _).trans_eq ?_
    exact (List.Forall₂.length_eq marked_searched).symm
  · rw [← leadsTo_searched ip] at hd
    obtain ⟨y, hy, hy'⟩ := (Option.any_eq_true _ _).1 hd
    rw [Bool.and_eq_true, Bool.not_eq_true', beq_iff_eq] at hy'
    obtain ⟨hymem, rfl⟩ := hs.entryFor_iff.1 hy
    rw [lostDsts, List.map_reverse, List.mem_reverse, List.map_map]
    exact List.mem_map.2 ⟨y, List.mem_filter.2 ⟨hymem, decide_eq_true ⟨hy'.2, hy'.1⟩⟩, rfl⟩
  · refine routeTo_of_marked clk hs (fun z hz => ?_) rfl
      ((leadsTo_searched ip).trans hd)
    obtain ⟨y, hy, rfl⟩ := List.mem_map.1 (List.mem_filter.1 hz).1
    exact ⟨y, hy, rfl⟩

/-! ## The nodes that hear of it -/

theorem breakListed_done (hmem : mem.Succeeds) {srcIp : U32} {l out : List AodvDst} :
    (breakListed mem clk srcIp l out s).1 = true := by
  induction l generalizing out s with
  | nil => rfl
  | cons e l ih =>
    have hroute : mem .rerrRoute out.length = true := hmem .rerrRoute _
    rw [breakListed]
    simp only [findAodvRoute_eq, hroute, if_true]
    split
    · exact ih
    · split <;> exact ih

/-- A node that hears of broken routes reports those of its own routes that lead through
the sender. -/
theorem Distinct.recvRerr (h : Distinct s) (clk : Clock) (hmem : mem.Succeeds) {m : Rerr}
    (hcount : m.dstCount.toNat = m.dsts.length)
    (hsome : ∃ e ∈ m.dsts, leadsTo e.ip τ.srcIp s = true) :
    ∃ t l, recvRerr mem clk τ m s = some t ∧ Reports l s t ∧ l.length ≤ m.dsts.length ∧
      ∀ e ∈ m.dsts, leadsTo e.ip τ.srcIp s = true → e ∈ l ∧ routeTo e.ip t = false := by
  rcases hb : breakListed mem clk τ.srcIp m.dsts [] s with ⟨done, l, s₁⟩
  obtain rfl : done = true := by
    have hdone : (breakListed mem clk τ.srcIp m.dsts [] s).1 = true := breakListed_done hmem
    rwa [hb] at hdone
  have hsent : (breakListed mem clk τ.srcIp m.dsts [] s).2.2.sent = s.sent := sent_breakListed
  have hagenda : agenda (breakListed mem clk τ.srcIp m.dsts [] s).2.2 = agenda s :=
    agenda_breakListed
  rw [hb] at hsent hagenda
  have hbroke := broke_breakListed h hb
  have hl : l = (m.dsts.filter (goesThrough τ.srcIp s)).reverse :=
    hbroke.outgoing.trans (List.append_nil _)
  have hin : ∀ e ∈ m.dsts, leadsTo e.ip τ.srcIp s = true → e ∈ l := fun e he hlead => by
    rw [hl, List.mem_reverse]
    exact List.mem_filter.2 ⟨he, hlead⟩
  have hpos : l.length ≠ 0 := by
    obtain ⟨e, he, hlead⟩ := hsome
    exact fun h => List.not_mem_nil (List.length_eq_zero_iff.1 h ▸ hin e he hlead)
  refine ⟨sendRerr true l s₁, l, ?_, ⟨?_, (agenda_iff.1 hagenda).2.1⟩, ?_,
    fun e he hlead => ⟨hin e he hlead, ?_⟩⟩
  · rw [Aodv.recvRerr, if_pos hcount.le, hcount, List.take_length, hb]
    simp only [hpos, ne_eq, not_false_eq_true, and_self, if_true, hmem .rerr 0]
  · exact congrArg (· ++ [errorOf l]) hsent
  · rw [hl, List.length_reverse]
    exact List.length_filter_le _ _
  · exact hbroke.broken e he hlead

/-! ## Along a path -/

/-- The node `v 0` drops the neighbour `lost`, and the errors come to `v 1`, `v 2` and so on. -/
structure Withdrawal (n : ℕ) where
  hops : ℕ
  v : ℕ → Fin n
  lost : U32
  clk : ℕ → Clock
  mem : Mem
  hears : ℕ → List (Fin n)

namespace Withdrawal

variable {n : ℕ} (W : Withdrawal n) (node : Fin n → Params)

/-- The next hop of the node `i` towards the broken link. -/
def hop : ℕ → U32
  | 0 => W.lost
  | i + 1 => (node (W.v i)).myIp

/-- The neighbour is dropped, and the errors are handed on `i` times. -/
def notices (ks : ℕ → ℕ) : ℕ → List (Mesh.Action n)
  | 0 => [.thread (W.v 0) W.mem (W.clk 0) (W.hears 0)]
  | i + 1 => notices ks i ++ handles (W.v (i + 1)) (ks i) W.mem (W.clk (i + 1)) (W.hears (i + 1))

variable (s : Mesh n)

/-- The first `i` nodes and the node `i` reach `d` over the broken link. -/
def Uses (i : ℕ) (d : U32) : Prop := ∀ j ≤ i, leadsTo d (W.hop node j) (s.router (W.v j)) = true

/-- What the nodes of the path must be like. -/
structure Ready : Prop where
  memory : W.mem.Succeeds
  distinct : ∀ i ≤ W.hops, ∀ j ≤ W.hops, W.v i = W.v j → i = j
  hears : ∀ i < W.hops, W.v (i + 1) ∈ W.hears i
  tidy : ∀ i ≤ W.hops, Tidy (s.router (W.v i))
  quiet : ∀ i ≤ W.hops, (s.router (W.v i)).sent = []
  idle : ∀ i ≤ W.hops, 0 < i → (s.router (W.v i)).taskQ = []
  /-- the time-out of the neighbour is the next task -/
  drops : ∃ τ ∈ (s.router (W.v 0)).taskQ.head?, τ.type = .neighbor ∧ τ.srcIp = W.lost
  neigh : ((s.router (W.v 0)).neighs.any fun x => x.ip == W.lost) = true
  direct : leadsTo W.lost W.lost (s.router (W.v 0)) = true
  few : (s.router (W.v 0)).routes.length < 256
  /-- there is a destination that all of them reach over the link -/
  used : ∃ d, W.Uses node s W.hops d

variable {W node s} {i : ℕ} {t : Mesh n}

/-- The node `i` has broadcast a route error, which names each destination that all up to it
reach over the broken link, and the nodes up to it have marked their routes there. -/
structure Withdrawn (W : Withdrawal n) (node : Fin n → Params) (s : Mesh n) (i : ℕ) (t : Mesh n) :
    Prop where
  reported : ∃ l : List AodvDst, l.length < 256 ∧
    (∀ d, W.Uses node s i d → d ∈ l.map AodvDst.ip) ∧
    ∀ w ∈ W.hears i, ∃ k : ℕ, t.air[k]? =
      some { sender := W.v i, receiver := w, datagram := errorOf l }
  marked : ∀ j ≤ i, ∀ d, W.Uses node s j d → routeTo d (t.router (W.v j)) = false

/-- The errors have come as far as the node `i`. -/
structure Told (W : Withdrawal n) (node : Fin n → Params) (s : Mesh n) (i : ℕ) (t : Mesh n) :
    Prop extends W.Withdrawn node s i t where
  ahead : ∀ j ≤ W.hops, i < j → t.router (W.v j) = s.router (W.v j)

theorem Ready.v_ne (h : W.Ready node s) {j : ℕ} (hi : i ≤ W.hops) (hj : j ≤ W.hops)
    (hne : i ≠ j) : W.v i ≠ W.v j := fun he => hne (h.distinct i hi j hj he)

theorem Uses.mono {j : ℕ} {d : U32} (h : W.Uses node s i d) (hj : j ≤ i) : W.Uses node s j d :=
  fun k hk => h k (hk.trans hj)

/-- The node `v 0` drops its neighbour. -/
theorem Ready.start (h : W.Ready node s) (ks : ℕ → ℕ) :
    ∃ t, exec (Mesh.step node) (W.notices ks 0) s = some t ∧ W.Told node s 0 t := by
  obtain ⟨τ, hhead, htype, hsrc⟩ := h.drops
  obtain ⟨q, hq⟩ : ∃ q, (s.router (W.v 0)).taskQ = τ :: q := by
    cases hq : (s.router (W.v 0)).taskQ with
    | nil => rw [hq] at hhead; cases hhead
    | cons τ' q =>
      rw [hq] at hhead
      exact ⟨q, by rw [Option.some.inj hhead]⟩
  have htidy : Tidy { s.router (W.v 0) with taskQ := q } :=
    (h.tidy 0 (Nat.zero_le _)).congr rfl rfl rfl
  obtain ⟨r, l, hr, hreports, hlen, hlost⟩ :=
    htidy.drop (W.clk 0) h.memory h.neigh h.direct
  have hsent : r.sent = [errorOf l] := by
    rw [hreports.sent]
    exact congrArg (· ++ [errorOf l]) (h.quiet 0 (Nat.zero_le _))
  refine ⟨moved s (W.v 0) r (s.air ++ r.sent.flatMap (copies node (W.v 0) (W.hears 0))), ?_,
    ⟨⟨l, hlen.trans_lt h.few, fun d hd => (hlost d (hd 0 le_rfl)).1, fun w hw => ?_⟩,
      fun j hj d hd => ?_⟩,
    fun j hj hlt => router_moved_of_ne (h.v_ne hj (Nat.zero_le _) (by omega))⟩
  · have hstep :
        Aodv.step (node (W.v 0)) (.thread W.mem (W.clk 0)) (s.router (W.v 0)) = some r := by
      rw [Aodv.step, runTask, getTask, hq]
      show handle (node (W.v 0)) W.mem (W.clk 0) τ _ = some r
      rw [handle, htype, hsrc]
      exact hr
    rw [notices, exec_cons]
    show (act node (W.v 0) _ (W.hears 0) s).bind _ = _
    rw [act, hstep]
    rfl
  · rw [hsent]
    exact exists_copy s.air hw (.inl rfl)
  · obtain rfl : j = 0 := by omega
    rw [router_moved_self]
    exact (hlost d (hd 0 le_rfl)).2

/-- A node on the way marks its routes and reports on them. -/
theorem Told.next (hs : W.Told node s i t) (h : W.Ready node s) (hi : i < W.hops) : ∃ k t',
    exec (Mesh.step node) (handles (W.v (i + 1)) k W.mem (W.clk (i + 1)) (W.hears (i + 1))) t =
      some t' ∧ W.Told node s (i + 1) t' := by
  obtain ⟨l, hlen, hl, hcopies⟩ := hs.reported
  obtain ⟨k, hk⟩ := hcopies (W.v (i + 1)) (h.hears i hi)
  have hrouter := hs.ahead (i + 1) hi (Nat.lt_succ_self i)
  have hcount : (BitVec.ofNat 8 l.length).toNat = l.length := by
    rw [BitVec.toNat_ofNat, Nat.mod_eq_of_lt hlen]
  have hvalid : validAodvPacket (errorOf l).msg (s.router (W.v (i + 1))) =
      (true, s.router (W.v (i + 1))) := by
    show (l.length == (BitVec.ofNat 8 l.length).toNat, _) = _
    rw [hcount, beq_self_eq_true]
  -- what leads through the sender is listed
  have hlisted : ∀ d, W.Uses node s (i + 1) d → ∃ e ∈ l, e.ip = d ∧
      leadsTo e.ip (W.hop node (i + 1)) (s.router (W.v (i + 1))) = true := fun d hd => by
    obtain ⟨e, he, rfl⟩ := List.mem_map.1 (hl d (hd.mono (Nat.le_succ i)))
    exact ⟨e, he, rfl, hd (i + 1) le_rfl⟩
  obtain ⟨d₀, hd₀⟩ := h.used
  obtain ⟨e₀, he₀, -, hlead₀⟩ := hlisted d₀ (hd₀.mono hi)
  obtain ⟨r, l', hr, hreports, hlen', hbroken⟩ :=
    (h.tidy (i + 1) hi).distinct.recvRerr (W.clk (i + 1))
      (τ := taskOf node (W.clk (i + 1))
        { sender := W.v i, receiver := W.v (i + 1), datagram := errorOf l })
      (m := { dstCount := BitVec.ofNat 8 l.length, dsts := l }) h.memory hcount ⟨e₀, he₀, hlead₀⟩
  have hsent : r.sent = [errorOf l'] := by
    rw [hreports.sent, h.quiet (i + 1) hi]
    rfl
  refine ⟨k, _, exec_handles hk hrouter hvalid (h.idle (i + 1) hi (Nat.succ_pos i))
    (h.quiet (i + 1) hi) h.memory hr,
    ⟨⟨l', hlen'.trans_lt hlen, fun d hd => ?_, fun w hw => ?_⟩, fun j hj d hd => ?_⟩,
    fun j hj hlt => ?_⟩
  · obtain ⟨e, he, rfl, hlead⟩ := hlisted d hd
    exact List.mem_map_of_mem (hbroken e he hlead).1
  · rw [hsent]
    exact exists_copy (t.air.eraseIdx k) hw (.inl rfl)
  · by_cases hji : j = i + 1
    · subst hji
      obtain ⟨e, he, rfl, hlead⟩ := hlisted d hd
      rw [router_moved_self]
      exact (hbroken e he hlead).2
    · rw [router_moved_of_ne (h.v_ne (by omega) hi hji)]
      exact hs.marked j (by omega) d hd
  · rw [router_moved_of_ne (h.v_ne hj hi (by omega))]
    exact hs.ahead j hj (by omega)

theorem notices_update {ks : ℕ → ℕ} {j k : ℕ} (h : i ≤ j) :
    W.notices (Function.update ks j k) i = W.notices ks i := by
  induction i with
  | zero => rfl
  | succ i ih => rw [notices, notices, ih (by omega), Function.update_of_ne (by omega)]

/-- The errors come to one node after another. -/
theorem Ready.told (h : W.Ready node s) (hi : i ≤ W.hops) :
    ∃ ks, ∀ j ≤ i, ∃ t, exec (Mesh.step node) (W.notices ks j) s = some t ∧
      W.Told node s j t := by
  induction i with
  | zero =>
    obtain ⟨t, ht, hs⟩ := h.start fun _ => 0
    refine ⟨fun _ => 0, fun j hj => ?_⟩
    obtain rfl : j = 0 := by omega
    exact ⟨t, ht, hs⟩
  | succ i ih =>
    obtain ⟨ks, hks⟩ := ih (by omega)
    obtain ⟨t, ht, hs⟩ := hks i le_rfl
    obtain ⟨k, t', ht', hs'⟩ := hs.next h hi
    refine ⟨Function.update ks i k, fun j hj => ?_⟩
    rcases Nat.lt_or_ge i j with hlt | hle
    · obtain rfl : j = i + 1 := by omega
      refine ⟨t', ?_, hs'⟩
      rw [notices, exec_append, notices_update le_rfl, ht, Function.update_self]
      exact ht'
    · rw [notices_update hle]
      exact hks j hle

/-- As the errors come along the path, each node marks its routes over the broken link and reports
on them, and in the end no node has a valid one. -/
theorem routes_withdrawn (h : W.Ready node s) :
    ∃ ks, ∀ i ≤ W.hops, ∃ t, exec (Mesh.step node) (W.notices ks i) s = some t ∧
      W.Withdrawn node s i t := by
  obtain ⟨ks, hks⟩ := h.told le_rfl
  refine ⟨ks, fun i hi => ?_⟩
  obtain ⟨t, ht, hs⟩ := hks i hi
  exact ⟨t, ht, hs.toWithdrawn⟩

/-- The path from node 1 to node 0. -/
def silentLine : Withdrawal 3 where
  hops := 1
  v i := ⟨(i + 1 - 2 * i) % 3, Nat.mod_lt _ (by decide)⟩
  lost := peer 3
  clk _ := clockAt 4100
  mem := .plenty
  hears _ := (List.finRange 3).take 1

/-- Node 1, over which node 0 reaches node 2, has not heard of node 2 for too long. -/
def silent : Mesh 3 :=
  (exec (Mesh.step threeNodes) (lineRun ++ .timer (silentLine.v 0) (clockAt 4100) ::
    List.replicate 2 (.thread (silentLine.v 0) .plenty (clockAt 4100) [])) loaded).getD loaded

theorem routes_withdrawn_silentLine :
    routeTo (peer 3) (silent.router 0) = true ∧
      ∃ ks, ∀ i ≤ 1, ∃ t, exec (Mesh.step threeNodes) (silentLine.notices ks i) silent = some t ∧
        silentLine.Withdrawn threeNodes silent i t :=
  ⟨by decide +kernel, routes_withdrawn (W := silentLine) {
    memory := Mem.plenty_succeeds
    distinct := by decide +kernel
    hears := by decide +kernel
    tidy := by decide +kernel
    quiet := by decide +kernel
    idle := by decide +kernel
    drops := by decide +kernel
    neigh := by decide +kernel
    direct := by decide +kernel
    few := by decide +kernel
    used := ⟨peer 3, by unfold Uses; decide +kernel⟩ }⟩

end Withdrawal

end MobileCloudCaching.Aodv
