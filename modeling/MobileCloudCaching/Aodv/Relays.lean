import MobileCloudCaching.Aodv.Writes

/-!
# Route errors that are sent on

`recv_rerr` marks the entries through the sender of a route error and sends the error on for them.
It does the second also for an entry that is marked already: two nodes with such entries through
each other send an error to and fro.
-/

namespace MobileCloudCaching.Aodv

open Transition

variable {p : Params} {mem : Mem} {clk : Clock} {s t : Router} {τ : Task} {d : U32}

/-- The entry for `d` goes through `srcIp`. -/
def goesThrough (srcIp : U32) (s : Router) (d : AodvDst) : Bool :=
  (entryFor d.ip s).any fun r => !r.selfRoute && r.nextHop == srcIp

/-- The listed destinations whose entry goes through `srcIp`: `recv_rerr` sends them on. -/
def Rerr.through (srcIp : U32) (s : Router) (m : Rerr) : List AodvDst :=
  (m.dsts.take m.dstCount.toNat).filter (goesThrough srcIp s)

/-- The destinations in the route errors that a step has sent. -/
def errorsSent (s t : Router) : List U32 :=
  (t.sent.drop s.sent.length).flatMap fun g =>
    match g.msg with
    | .rerr m => m.dsts.map AodvDst.ip
    | _ => []

/-- The destinations for which a step has sent on a route error. -/
def relayed (e : Event) (s t : Router) : List U32 :=
  match e with
  | .thread _ _ =>
    match s.taskQ.head?.map Task.type with
    | some (.packet (.rerr _)) => errorsSent s t
    | _ => []
  | _ => []

/-- The route to `d` is valid. -/
def routeTo (d : U32) (s : Router) : Bool := (entryFor d s).any Route.routeValid

/-- Before the step, `d` had a valid route through the sender of the route error, no self
route, which the step has made invalid. -/
def BreaksRoute (s t : Router) (d : U32) : Prop :=
  ∃ τ ∈ s.taskQ.head?, ∃ r ∈ entryFor d s, r.routeValid = true ∧ r.selfRoute = false ∧
    r.nextHop = τ.srcIp ∧
    ∃ r' ∈ entryFor d t, r'.ptr = r.ptr ∧ r'.routeValid = false

/-- A step breaks the routes for which it sends on a route error. -/
def RelaysBroken (p : Params) (e : Event) (s : Router) : Prop :=
  ∀ t ∈ step p e s, ∀ d ∈ relayed e s t, BreaksRoute s t d

/-- What `recv_rerr` sends on, if it gets the memory for it, are
different destinations with valid routes. -/
def Task.FindsValid (mem : Mem) (_ : Clock) (τ : Task) (s : Router) : Prop :=
  match τ.type with
  | .packet (.rerr m) =>
    mem .rerr 0 = true → (∀ i < (m.through τ.srcIp s).length, mem .rerrRoute i = true) →
      ((m.through τ.srcIp s).map AodvDst.ip).Nodup ∧
      ∀ d ∈ m.through τ.srcIp s, routeTo d.ip s = true
  | _ => True

instance (mem : Mem) (clk : Clock) (τ : Task)
    (s : Router) : Decidable (τ.FindsValid mem clk s) := by
  unfold Task.FindsValid
  split <;> infer_instance

/-! ## Entries that are marked -/

/-- What a search or a route error leaves of the entry `x`: it may be
marked, and is not made valid again. -/
structure Route.Worn (x y : Route) : Prop where
  ptr : y.ptr = x.ptr
  ip : y.ip = x.ip
  netmask : y.netmask = x.netmask
  nextHop : y.nextHop = x.nextHop
  selfRoute : y.selfRoute = x.selfRoute
  valid : y.routeValid = true → x.routeValid = true

/-- Each entry of the table is left as it was, or marked. -/
def Worn (s t : Router) : Prop := List.Forall₂ Route.Worn s.routes t.routes

namespace Worn

theorem refl (s : Router) : Worn s s := List.forall₂_same.2 fun _ _ => ⟨rfl, rfl, rfl, rfl, rfl, id⟩

theorem trans {u : Router} (h : Worn s t) (h' : Worn t u) : Worn s u := by
  unfold Worn at *
  generalize s.routes = l, t.routes = l', u.routes = l'' at h h'
  induction h generalizing l'' with
  | nil => exact h'
  | cons hxy _ ih =>
    cases h' with
    | cons hyz h' =>
      refine .cons ⟨hyz.ptr.trans hxy.ptr, hyz.ip.trans hxy.ip, hyz.netmask.trans hxy.netmask,
        hyz.nextHop.trans hxy.nextHop, hyz.selfRoute.trans hxy.selfRoute,
        hxy.valid ∘ hyz.valid⟩ (ih _ h')

theorem search (clk : Clock) (ip : U32) (s : Router) : Worn s (searched clk ip s) := by
  have hmarked : Marked clk s.routes (searched clk ip s).routes := marked_searched
  refine hmarked.imp fun x y hxy => ?_
  rcases hxy with rfl | rfl
  · exact ⟨rfl, rfl, rfl, rfl, rfl, id⟩
  · exact ⟨by simp, by simp, by simp, by simp, by simp,
      fun h => by rwa [Route.routeValid_of_refresh h] at h⟩

/-- An entry of the table is replaced by what is left of it. -/
theorem put (h : Distinct s) {r r' : Route} (hr : r ∈ s.routes)
    (hw : r.Worn r') : Worn s (putRoute r' s) := by
  rw [Worn, putRoute, List.forall₂_map_right_iff, List.forall₂_same]
  intro x hx
  split
  · rw [h.eq_of_ptr hx hr (by rw [‹x.ptr = r'.ptr›, hw.ptr])]
    exact hw
  · exact ⟨rfl, rfl, rfl, rfl, rfl, id⟩

/-- The search leads to the same entry as before. -/
theorem entryFor (h : Worn s t)
    (ip : U32) : Option.Rel Route.Worn (entryFor ip s) (entryFor ip t) := by
  have hl := List.rel_filter (p := fun r => r.compare ip) (q := fun r => r.compare ip)
    (fun x y hxy => by simp [Route.compare, hxy.ip, hxy.netmask])
    (forall₂_takeWhile (p := fun r => decide (r.ip ≤ ip)) (q := fun r => decide (r.ip ≤ ip)) h
      fun x y hxy => by
      rw [hxy.ip])
  exact getLast?_of_forall₂ hl

theorem routeTo (h : Worn s t) (ht : routeTo d t = true) : routeTo d s = true := by
  have hrel := h.entryFor d
  unfold Aodv.routeTo at *
  generalize Aodv.entryFor d s = o, Aodv.entryFor d t = o' at *
  cases hrel with
  | none => exact ht
  | some hxy => exact hxy.valid ht

theorem goesThrough (h : Worn s t) (srcIp : U32) : goesThrough srcIp t = goesThrough srcIp s := by
  funext e
  have hrel := h.entryFor e.ip
  unfold Aodv.goesThrough
  generalize Aodv.entryFor e.ip s = o, Aodv.entryFor e.ip t = o' at *
  cases hrel with
  | none => rfl
  | some hxy => simp [hxy.selfRoute, hxy.nextHop]

end Worn

theorem mem_entryFor {ip : U32} {r : Route} (h : entryFor ip s = some r) : r ∈ s.routes :=
  (List.takeWhile_sublist _).subset (List.mem_filter.1 (List.mem_of_getLast? h)).1

/-- Without a valid entry, nothing is left of the route. -/
theorem routeTo_marked (h : Distinct s) {r r' : Route} (hr : foundRoute clk d s = some r)
    (hw : r.Worn r') (hv : r'.routeValid = false) :
    Worn s (putRoute r' (searched clk d s)) ∧
    routeTo d (putRoute r' (searched clk d s)) = false := by
  have hworn : Worn s (putRoute r' (searched clk d s)) :=
    (Worn.search clk d s).trans (.put (h.search d) (mem_searched hr) hw)
  refine ⟨hworn, ?_⟩
  rw [foundRoute_entryFor] at hr
  obtain ⟨x, hx, rfl⟩ := Option.map_eq_some_iff.1 hr
  have hrel := hworn.entryFor d
  rw [hx] at hrel
  generalize ht : entryFor d (putRoute r' (searched clk d s)) = o at hrel
  cases hrel with
  | some hxy =>
    rename_i y
    have hptr : y.ptr = r'.ptr := by rw [hxy.ptr, hw.ptr, Route.ptr_refresh]
    rcases mem_putRoute (mem_entryFor ht) with ⟨rfl, -⟩ | ⟨-, hne⟩
    · rw [routeTo, ht]
      exact hv
    · exact absurd hptr hne

/-! ## One route error -/

theorem goesThrough_foundRoute (clk : Clock) (srcIp : U32) (s : Router) (e : AodvDst) :
    goesThrough srcIp s e = (foundRoute clk e.ip s).any fun r =>
      !r.selfRoute && r.nextHop == srcIp := by
  rw [foundRoute_entryFor, goesThrough]
  cases entryFor e.ip s <;> simp

/-- What the loop of `recv_rerr` does when it comes to its end. -/
structure Broke (mem : Mem) (srcIp : U32) (l out : List AodvDst) (s : Router)
    (out' : List AodvDst) (t : Router) :
    Prop where
  worn : Worn s t
  outgoing : out' = (l.filter (goesThrough srcIp s)).reverse ++ out
  memory : ∀ i, out.length ≤ i → i < out'.length → mem .rerrRoute i = true
  broken : ∀ e ∈ l, goesThrough srcIp s e = true → routeTo e.ip t = false

theorem Broke.cons_skipped {srcIp : U32} {l out out' : List AodvDst} {e : AodvDst}
    (h : Broke mem srcIp l out (searched clk e.ip s) out' t) (he : goesThrough srcIp s e = false) :
    Broke mem srcIp (e :: l) out s out' t where
  worn := (Worn.search clk e.ip s).trans h.worn
  outgoing := by
    rw [List.filter_cons_of_neg (by simp [he]), h.outgoing, (Worn.search clk e.ip s).goesThrough]
  memory := h.memory
  broken e' he' hthrough := by
    rcases List.mem_cons.1 he' with rfl | he'
    · exact Bool.noConfusion (he.symm.trans hthrough)
    · exact h.broken e' he' (by rwa [(Worn.search clk e.ip s).goesThrough])

theorem Broke.cons_taken {srcIp : U32} {l out out' : List AodvDst} {e : AodvDst} {s₁ : Router}
    (h : Broke mem srcIp l (e :: out) s₁ out' t) (he : goesThrough srcIp s e = true)
    (hmem : mem .rerrRoute out.length = true) (hw : Worn s s₁) (hv : routeTo e.ip s₁ = false) :
    Broke mem srcIp (e :: l) out s out' t where
  worn := hw.trans h.worn
  outgoing := by
    rw [List.filter_cons_of_pos he, h.outgoing, hw.goesThrough]
    simp
  memory i hi hlt := by
    rcases Nat.eq_or_lt_of_le hi with rfl | hi
    · exact hmem
    · exact h.memory i hi hlt
  broken e' he' hthrough := by
    rcases List.mem_cons.1 he' with rfl | he'
    · exact Bool.eq_false_iff.2 fun hvalid =>
        Bool.noConfusion (hv.symm.trans (h.worn.routeTo hvalid))
    · exact h.broken e' he' (by rwa [hw.goesThrough])

/-- The writes of `recv_rerr` to an entry come to one, which leaves it marked. -/
theorem marked_of_listed (clk : Clock) (r : Route) (seq : U32) (s : Router) :
    ∃ r', r.Worn r' ∧ r'.routeValid = false ∧
      (if r.routeValid then putRoute (Route.expire clk { r with seq := seq })
        (putRoute { r with seq := seq } s)
        else putRoute { r with seq := seq } s) = putRoute r' s := by
  by_cases hvalid : r.routeValid = true
  · refine ⟨Route.expire clk { r with seq := seq },
      ⟨rfl, rfl, rfl, rfl, rfl, fun _ => hvalid⟩, rfl, ?_⟩
    rw [if_pos hvalid, putRoute_putRoute (by rfl)]
  · exact ⟨{ r with seq := seq }, ⟨rfl, rfl, rfl, rfl, rfl, id⟩, by simpa using hvalid,
      if_neg hvalid⟩

theorem broke_breakListed (h : Distinct s) {srcIp : U32} {l out out' : List AodvDst}
    (hb : breakListed mem clk srcIp l out s = (true, out', t)) :
    Broke mem srcIp l out s out' t := by
  induction l generalizing out s with
  | nil =>
    obtain ⟨-, rfl, rfl⟩ : true = true ∧ out = out' ∧ s = t := by simpa [breakListed] using hb
    exact ⟨.refl s, rfl, fun i hi hlt => absurd hlt (Nat.not_lt.2 hi),
      fun _ he => absurd he List.not_mem_nil⟩
  | cons e l ih =>
    have hthrough := goesThrough_foundRoute clk srcIp s e
    rw [breakListed] at hb
    simp only [findAodvRoute_eq] at hb
    split at hb
    · rename_i hr
      exact (ih (h.search _) hb).cons_skipped (by rw [hthrough, hr]; rfl)
    · rename_i r hr
      split at hb
      · rename_i hvia
        split at hb
        · rename_i hmem
          -- the entry is left with the number given, and marked
          obtain ⟨r', hw, hv, hput⟩ := marked_of_listed clk r e.seq (searched clk e.ip s)
          obtain ⟨hworn, hbroken⟩ := routeTo_marked h hr hw hv
          rw [hput] at hb
          exact (ih ((h.search _).put r') hb).cons_taken (by rw [hthrough, hr]; simp [hvia.1,
            hvia.2]) hmem hworn
            hbroken
        · simp at hb
      · rename_i hvia
        exact (ih (h.search _) hb).cons_skipped (by rw [hthrough, hr]; simpa using hvia)

theorem sent_breakListed {srcIp : U32} {l out : List AodvDst} :
    (breakListed mem clk srcIp l out s).2.2.sent = s.sent := by
  induction l generalizing out s with
  | nil => rfl
  | cons e l ih =>
    rw [breakListed]
    simp only [findAodvRoute_eq]
    split
    · exact ih
    · split
      · split
        · rw [ih]
          split <;> rfl
        · rfl
      · exact ih

theorem errorsSent_nil (h : t.sent = s.sent) : errorsSent s t = [] := by simp [errorsSent, h]

theorem errorsSent_sendRerr {out : List AodvDst} (h : t.sent = s.sent) :
    errorsSent s (sendRerr true out t) = out.map AodvDst.ip := by
  have hsent : (sendRerr true out t).sent = s.sent ++
      [{ dst := broadcastIp, ttl := 10, msg := .rerr {
      dstCount := BitVec.ofNat 8 out.length, dsts := out } }] := by
    rw [← h]
    rfl
  simp [errorsSent, hsent]

/-- What `recv_rerr` sends: nothing, or an error for the listed destinations that lead through
the sender, which have no valid route then. -/
theorem errorsSent_recvRerr (h : Distinct s) {m : Rerr} (hr : recvRerr mem clk τ m s = some t) :
    errorsSent s t = [] ∨ mem .rerr 0 = true ∧
    (∀ i < (m.through τ.srcIp s).length, mem .rerrRoute i = true) ∧
      errorsSent s t = ((m.through τ.srcIp s).map AodvDst.ip).reverse ∧ Worn s t ∧
      ∀ e ∈ m.through τ.srcIp s, routeTo e.ip t = false := by
  unfold recvRerr at hr
  split at hr
  · rcases hb : breakListed mem clk τ.srcIp (m.dsts.take m.dstCount.toNat) [] s with ⟨done, out, s₁⟩
    have hsent : (breakListed mem clk τ.srcIp (m.dsts.take m.dstCount.toNat) [] s).2.2.sent =
        s.sent :=
      sent_breakListed
    rw [hb] at hsent
    rw [hb] at hr
    dsimp only at hr
    split at hr
    · rename_i hdone
      obtain ⟨rfl, -⟩ := hdone
      have hbroke := broke_breakListed h hb
      have hout : out = (m.through τ.srcIp s).reverse := hbroke.outgoing.trans (List.append_nil _)
      cases hmem : mem .rerr 0 with
      | false =>
        rw [hmem] at hr
        rw [← Option.some.inj hr]
        exact .inl (errorsSent_nil hsent)
      | true =>
        rw [hmem] at hr
        rw [← Option.some.inj hr]
        refine .inr ⟨rfl, fun i hi => hbroke.memory i (Nat.zero_le i) ?_, ?_, ?_, fun e he => ?_⟩
        · rwa [hout, List.length_reverse]
        · rw [errorsSent_sendRerr hsent, hout, List.map_reverse]
        · exact hbroke.worn
        · obtain ⟨hin, hthrough⟩ := List.mem_filter.1 he
          exact hbroke.broken e hin hthrough
    · rw [← Option.some.inj hr]
      exact .inl (errorsSent_nil hsent)
  · cases hr

/-! ## Steps -/

theorem relayed_nil_or (e : Event) (s t : Router) : relayed e s t = [] ∨
    ∃ mem clk τ m, e = .thread mem clk ∧ s.taskQ.head? = some τ ∧ τ.type = .packet (.rerr m) ∧
      relayed e s t = errorsSent s t := by
  cases e with
  | packet mem clk a => exact .inl rfl
  | output mem clk daddr => exact .inl rfl
  | timer clk => exact .inl rfl
  | thread mem clk =>
    unfold relayed
    dsimp only
    split
    · rename_i m hm
      obtain ⟨τ, hτ, htype⟩ := Option.map_eq_some_iff.1 hm
      exact .inr ⟨mem, clk, τ, m, rfl, hτ, htype, rfl⟩
    · exact .inl rfl

/-- A step sends on route errors for different destinations only, whose valid
routes through the sender it has marked. -/
theorem relayed_spec {e : Event} (h : Distinct s) (hok : NextTask Task.FindsValid e s)
    (hs : step p e s = some t) :
    (relayed e s t).Nodup ∧ ∀ d ∈ relayed e s t, BreaksRoute s t d := by
  have hnil : relayed e s t = [] → (relayed e s t).Nodup ∧ ∀ d ∈ relayed e s t, BreaksRoute s t d :=
    fun hn => by
    rw [hn]
    exact ⟨.nil, fun _ hd => absurd hd List.not_mem_nil⟩
  rcases relayed_nil_or e s t with hn | ⟨mem, clk, τ, m, rfl, hτ, htype, hrel⟩
  · exact hnil hn
  rcases runTask_cases hs with ⟨hq, -⟩ | ⟨τ', hτ', -, hh⟩
  · rw [hq] at hτ
    cases hτ
  obtain rfl : τ = τ' := Option.some.inj (hτ.symm.trans hτ')
  have hpop : Distinct { s with taskQ := s.taskQ.tail } := h.congr rfl rfl
  rw [handle, htype] at hh
  rcases errorsSent_recvRerr hpop hh with hsent | ⟨hrerr, hroutes, hsent, hworn, hbroken⟩
  · exact hnil (hrel.trans hsent)
  have hsent : relayed (.thread mem clk) s t = ((m.through τ.srcIp s).map AodvDst.ip).reverse :=
    hrel.trans hsent
  have hfinds := hok τ hτ
  rw [Task.FindsValid, htype] at hfinds
  obtain ⟨hnodup, hvalid⟩ := hfinds hrerr hroutes
  rw [hsent]
  refine ⟨List.nodup_reverse.2 hnodup, fun d hd => ?_⟩
  obtain ⟨e, he, rfl⟩ := List.mem_map.1 (List.mem_reverse.1 hd)
  have hto : routeTo e.ip s = true := hvalid e he
  have hthrough : goesThrough τ.srcIp s e = true := (List.mem_filter.1 he).2
  have hto' : routeTo e.ip t = false := hbroken e he
  have hentry : Option.Rel Route.Worn (entryFor e.ip s) (entryFor e.ip t) := hworn.entryFor e.ip
  unfold routeTo at hto hto'
  unfold goesThrough at hthrough
  generalize hx : entryFor e.ip s = o, hy : entryFor e.ip t = o' at *
  cases hentry with
  | none => exact absurd hto Bool.false_ne_true
  | some hxy =>
    rename_i x y
    simp only [Option.any_some, Bool.and_eq_true, Bool.not_eq_true', beq_iff_eq] at hthrough
    exact ⟨τ, hτ, x, hx, hto, hthrough.1, hthrough.2, y, hy, hxy.ptr, hto'⟩

theorem BreaksRoute.routeTo (h : BreaksRoute s t d) : routeTo d s = true ∧ routeTo d t = false := by
  obtain ⟨τ, -, r, hr, hv, -, -, r', hr', -, hv'⟩ := h
  rw [Option.mem_def] at hr hr'
  rw [Aodv.routeTo, Aodv.routeTo, hr, hr']
  exact ⟨hv, hv'⟩

/-! ## Runs -/

/-- The module, and for each destination how often it has sent on a route error and how often its
route has gone from valid to invalid. -/
structure Relaying where
  router : Router
  relays : U32 → ℕ
  breaks : U32 → ℕ

namespace Relaying

variable {r r' : Relaying}

def start (s : Router) : Relaying where
  router := s
  relays _ := 0
  breaks _ := 0

def step (p : Params) (e : Event) (r : Relaying) : Option Relaying :=
  (Aodv.step p e r.router).map fun t =>
    { router := t
      relays := fun d => r.relays d + (relayed e r.router t).count d
      breaks := fun d => r.breaks d + if routeTo d r.router && !routeTo d t then 1 else 0 }

/-- The addresses of entries are different, and no destination has
been relayed more often than broken. -/
structure Bounded (r : Relaying) : Prop where
  distinct : Distinct r.router
  le : ∀ d, r.relays d ≤ r.breaks d

theorem Bounded.step {e : Event} (h : Bounded r) (hok : NextTask Task.FindsValid e r.router)
    (hs : Relaying.step p e r = some r') : Bounded r' := by
  obtain ⟨t, ht, rfl⟩ := Option.map_eq_some_iff.1 hs
  refine ⟨h.distinct.step ht, fun d => Nat.add_le_add (h.le d) ?_⟩
  obtain ⟨hnodup, hbreaks⟩ := relayed_spec h.distinct hok ht
  by_cases hd : d ∈ relayed e r.router t
  · obtain ⟨hv, hv'⟩ := (hbreaks d hd).routeTo
    rw [List.count_eq_one_of_mem hnodup hd, hv, hv']
    exact le_rfl
  · rw [List.count_eq_zero_of_not_mem hd]
    exact Nat.zero_le _

/-- From any table on, whatever is received from whomever: when all that `recv_rerr` sends on
are different destinations with valid routes, it sends on only what it breaks, and never more
often than the route has been broken. -/
theorem relays_le_breaks {events : List Event} (h : Distinct s)
    (hok : AllSteps (step p) (fun e r => NextTask Task.FindsValid e r.router) events (start s)) :
    AllSteps (step p) (fun e r => RelaysBroken p e r.router) events (start s) ∧
      Along (step p) (fun r => ∀ d, r.relays d ≤ r.breaks d) events (start s) := by
  have hinv : Along (step p) Bounded events (start s) :=
    along_of_step (fun _ _ _ h hok hs => h.step hok hs) ⟨h, fun _ => Nat.zero_le 0⟩ hok
  refine ⟨?_, hinv.mono fun _ h => h.le⟩
  exact ((hinv.allSteps fun _ _ h => h.distinct).and hok).mono fun e r h t ht =>
    (relayed_spec h.1 h.2 ht).2

/-- Node 2 offers a route to node 3 and reports an error for it. -/
def errorRun : List Event :=
  handled 1 (helloFrom (peer 2) 1) ++ handled 2 (replyFrom (peer 2) plainNode.myIp (peer 3) 5 1) ++
    handled 3 (errorFrom (peer 2) (peer 3) 6)

theorem relays_le_breaks_errorRun : ∃ s, initModule plainNode (clockAt 0) = some s ∧
    AllSteps (step plainNode) (fun e r => RelaysBroken plainNode e r.router) errorRun (start s) ∧
      Along (step plainNode) (fun r => ∀ d, r.relays d ≤ r.breaks d) errorRun (start s) := by
  have hrun : (initModule plainNode (clockAt 0)).any (fun s => decide (AllSteps (step plainNode)
      (fun e r => NextTask Task.FindsValid e r.router) errorRun (start s))) = true := by
        decide +kernel
  obtain ⟨s, hs, hok⟩ := (Option.any_eq_true _ _).1 hrun
  exact ⟨s, hs, relays_le_breaks (.initModule hs) (of_decide_eq_true hok)⟩

/-- The error comes a second time. -/
def echoedErrorRun : List Event := errorRun ++ handled 4 (errorFrom (peer 2) (peer 3) 6)

/-- The entry that is marked already is sent on again. -/
theorem not_relays_le_breaks_echoedErrorRun :
    ¬∀ (p : Params) (s : Router) (events : List Event), Distinct s →
      AllSteps (step p) (fun e r => RelaysBroken p e r.router) events (start s) ∧
        Along (step p) (fun r => ∀ d, r.relays d ≤ r.breaks d) events (start s) := by
  intro h
  have hrun : ((initModule plainNode (clockAt 0)).bind fun s =>
      exec (step plainNode) echoedErrorRun (start s)).any
        (fun r => r.relays (peer 3) == 2 && r.breaks (peer 3) == 1) = true := by decide +kernel
  obtain ⟨r, hr, hq⟩ := (Option.any_eq_true _ _).1 hrun
  obtain ⟨s, hs, he⟩ := Option.bind_eq_some_iff.1 hr
  have hle : ∀ d, r.relays d ≤ r.breaks d := Along.reached
    (by rw [List.append_nil]; exact (h plainNode s echoedErrorRun (.initModule hs)).2) he
  have hle := hle (peer 3)
  simp only [Bool.and_eq_true, beq_iff_eq] at hq
  omega

end Relaying

end MobileCloudCaching.Aodv
