import MobileCloudCaching.Aodv.Lookup

/-!
# Which routes an update replaces (`update_aodv_route`)

A route is to be replaced by a newer one, or by one of the same age that is shorter or
that the invalid entry can do with.  `seq_greater` also holds of equal numbers, so the
first test already turns down every route of the same age, and the second one, which
compares the metrics, is never decisive.
-/

namespace MobileCloudCaching.Aodv

open Octets

variable {clk : Clock} {s t : Router} {ok : Bool} {u : Update}

/-! ## The rule -/

/-- The new route is to take the place of `old`. -/
def Update.Replaces (u : Update) : Option Route → Prop
  | none => True
  | some r => Serial.before r.seq u.seq = true ∨
      u.seq = r.seq ∧ (r.routeValid = false ∨ u.metric < r.metric)

instance (u : Update) : DecidablePred u.Replaces
  | none => .isTrue trivial
  | some _ => inferInstanceAs (Decidable (_ ∨ _))

/-- The table with the new route in the place of the last entry for its address, or in a new
entry. -/
def Update.table (u : Update) (clk : Clock) (s : Router) : List Route :=
  match lastRouteTo u.ip s with
  | some r => (putRoute (u.route clk r) s).routes
  | none => placeRoute (u.route clk (newRoute s.nextPtr u.ip)) s.routes

/-- After the search, the route of a valid neighbour is entered if it is to replace the entry for
its address, and else nothing is done. -/
structure FollowsRule (ok : Bool) (clk : Clock) (u : Update) (s : Router) : Prop where
  replaced : validAodvNeigh clk u.nextHop s = true →
    u.Replaces (lastRouteTo u.ip (searched clk u.ip s)) →
    ∃ t, updateAodvRoute ok clk u s = some t ∧ t.routes = u.table clk (searched clk u.ip s)
  kept : ¬(validAodvNeigh clk u.nextHop s = true ∧
  u.Replaces (lastRouteTo u.ip (searched clk u.ip s))) →
    updateAodvRoute ok clk u s = some (searched clk u.ip s)

/-! ## The tests -/

/-- What the tests come to: only newer routes pass. -/
theorem refused_iff (u : Update) (r : Route) : u.refused r = true ↔
    Serial.before r.seq u.seq = false := by
  rw [Update.refused, seqGreater, Bool.or_eq_true, Bool.not_eq_true', Bool.and_eq_true,
    Bool.and_eq_true, beq_iff_eq]
  refine ⟨fun h => h.elim id fun ⟨_, heq, _⟩ => ?_, .inl⟩
  rw [heq]
  exact Serial.before_self r.seq

theorem refused_of_before {r : Route} (h : Serial.before r.seq u.seq = true) :
    u.refused r = false :=
  Bool.eq_false_iff.2 fun hrefused => Bool.noConfusion (h.symm.trans ((refused_iff u r).1 hrefused))

theorem updateAodvRoute_of_invalid (h : validAodvNeigh clk u.nextHop s = false) :
    updateAodvRoute ok clk u s = some (searched clk u.ip s) := by
  have hv : validAodvNeigh clk u.nextHop (searched clk u.ip s) = false := h
  simp only [updateAodvRoute, findAodvRoute_eq, hv, Bool.not_false, if_true, Option.pure_def]

theorem updateAodvRoute_of_found (ok : Bool) {r : Route} (h : validAodvNeigh clk u.nextHop s = true)
    (hr : foundRoute clk u.ip s = some r) : updateAodvRoute ok clk u s =
      some (if u.refused r then searched clk u.ip s
      else installRoute clk u r (searched clk u.ip s)) := by
  have hv : validAodvNeigh clk u.nextHop (searched clk u.ip s) = true := h
  simp only [updateAodvRoute, findAodvRoute_eq, hv, hr, Bool.not_true, Bool.false_eq_true, if_false]
  split <;> rfl

theorem updateAodvRoute_of_none (ok : Bool) (h : validAodvNeigh clk u.nextHop s = true)
    (hf : foundRoute clk u.ip s = none) : updateAodvRoute ok clk u s =
      (createAodvRoute ok u.ip (searched clk u.ip s)).map fun c =>
        match c.1 with
        | some r => installRoute clk u r c.2
        | none => c.2 := by
  have hv : validAodvNeigh clk u.nextHop (searched clk u.ip s) = true := h
  simp only [updateAodvRoute, findAodvRoute_eq, hv, hf, Bool.not_true, Bool.false_eq_true, if_false,
    Option.map_eq_bind, Option.bind_eq_bind]
  congr 1
  funext c
  obtain ⟨_ | r, s⟩ := c <;> rfl

theorem createAodvRoute_of_unlocked {ip : U32} (hip : ip ≠ 0) (hreaders : s.routeReaders = 0) :
    createAodvRoute true ip s = some (some (newRoute s.nextPtr ip), created ip s) := by
  simp only [createAodvRoute, insertAodvRoute, created, if_true, if_neg hip, hreaders,
    Option.map_some]

/-- A writer waits for the readers. -/
theorem createAodvRoute_of_locked {ip : U32} (hip : ip ≠ 0) (hreaders : s.routeReaders ≠ 0) :
    createAodvRoute true ip s = none := by
  simp only [createAodvRoute, insertAodvRoute, if_true, if_neg hip, if_neg hreaders,
    Option.map_none]

/-! ## The table -/

theorem InOrder.search (h : InOrder s) (clk : Clock) (ip : U32) : InOrder (searched clk ip s) :=
  h.of_map (h.distinct.search ip) (by rw [← map_ip_shapes, ← map_ip_shapes, shapes_searched])

/-- The last entry for an address is the one that a search for it finds,
unless that one is for another address. -/
theorem lastRouteTo_searched (h : InOrder s) (clk : Clock) (ip : U32) :
    lastRouteTo ip (searched clk ip s) = (foundRoute clk ip s).filter fun r => r.ip == ip := by
  have hsearched := h.search clk ip
  cases hv : lastRouteTo ip (searched clk ip s) with
  | some v =>
    obtain ⟨hmem, hip⟩ := mem_of_lastRouteTo hv
    have hfound : foundRoute clk ip s = some (v.refresh clk) := by
      rw [← foundRoute_searched ip, foundRoute_entryFor, hsearched.entryFor_eq hv]
      rfl
    -- the search has marked all entries up to this one
    have hmarked : v.refresh clk = v :=
      hsearched.distinct.eq_of_ptr (mem_searched hfound) hmem Route.ptr_refresh
    rw [hfound, hmarked, Option.filter_some, hip, beq_self_eq_true, if_pos rfl]
  | none =>
    cases hf : foundRoute clk ip s with
    | none => rfl
    | some r =>
      have hne := lastRouteTo_eq_none_iff.1 hv r (mem_searched hf)
      rw [Option.filter_some, beq_eq_false_iff_ne.2 hne, if_neg Bool.false_ne_true]

theorem length_installRoute (r : Route) :
    (installRoute clk u r s).routes.length = s.routes.length :=
  List.length_map _

/-- A new entry makes the table longer. -/
theorem length_table_of_none (clk : Clock) (h : lastRouteTo u.ip s = none) :
    (u.table clk s).length = s.routes.length + 1 := by
  rw [Update.table, h]
  exact (placeRoute_perm _ _).length_eq

/-- An entry that the new route is to replace is not like it. -/
theorem table_ne_of_same_age {r : Route} (hr : lastRouteTo u.ip s = some r)
    (hdiffers : r.routeValid = false ∨ u.metric < r.metric) : u.table clk s ≠ s.routes := by
  intro heq
  have hfixed : u.route clk r = r := by
    rw [Update.table, hr] at heq
    have hmap := List.map_inj_left.1 (heq.trans (List.map_id _).symm) r (mem_of_lastRouteTo hr).1
    simpa [Update.route] using hmap
  rcases hdiffers with hinvalid | hmetric
  · rw [← hfixed] at hinvalid
    cases hinvalid
  · rw [← hfixed] at hmetric
    exact absurd hmetric (BitVec.lt_irrefl _)

/-- A new entry, filled in. -/
theorem installRoute_created (h : Distinct s) (hip : u.ip ≠ 0) :
    (installRoute clk u (newRoute s.nextPtr u.ip) (created u.ip s)).routes =
      placeRoute (u.route clk (newRoute s.nextPtr u.ip)) s.routes := by
  have hothers : ∀ {l : List Route}, l ⊆ s.routes →
      l.map (fun x => if x.ptr = s.nextPtr then u.route clk (newRoute s.nextPtr u.ip) else x) = l :=
        fun hl => by
    refine (List.map_congr_left fun x hx => ?_).trans (List.map_id _)
    exact if_neg (Nat.ne_of_lt (h.lt x (hl hx)))
  have hcreated : (created u.ip s).routes = placeRoute (newRoute s.nextPtr u.ip) s.routes :=
    if_neg hip
  have hput : (installRoute clk u (newRoute s.nextPtr u.ip) (created u.ip s)).routes =
      (created u.ip s).routes.map fun x =>
        if x.ptr = s.nextPtr then u.route clk (newRoute s.nextPtr u.ip) else x := rfl
  rw [hput, hcreated, placeRoute, List.map_append, List.map_cons,
    hothers (List.takeWhile_sublist _).subset, hothers (List.dropWhile_sublist _).subset]
  exact congrArg (_ ++ · :: _) (if_pos (rfl : (newRoute s.nextPtr u.ip).ptr = s.nextPtr))

/-! ## What the code follows -/

/-- The search finds nothing, and a new entry can be made and put into the table; or it finds an
entry for the very address, but not one of the same age that the new route is to replace. -/
def Update.Regular (ok : Bool) (clk : Clock) (u : Update) (s : Router) : Prop :=
  match (findAodvRoute clk u.ip s).1 with
  | none => ok = true ∧ u.ip ≠ 0 ∧ s.routeReaders = 0
  | some r => r.ip = u.ip ∧ ¬(u.seq = r.seq ∧ (r.routeValid = false ∨ u.metric < r.metric))

instance (ok : Bool) (clk : Clock) (u : Update) (s : Router) : Decidable (u.Regular ok clk s) := by
  unfold Update.Regular
  split <;> infer_instance

/-- The rule, after a search that has found an entry. -/
theorem followsRule_iff_of_found (h : InOrder s) {r : Route}
    (hvalid : validAodvNeigh clk u.nextHop s = true) (hr : foundRoute clk u.ip s = some r) :
    FollowsRule ok clk u s ↔
      r.ip = u.ip ∧ ¬(u.seq = r.seq ∧ (r.routeValid = false ∨ u.metric < r.metric)) := by
  have hresult := updateAodvRoute_of_found ok hvalid hr
  have hto := lastRouteTo_searched h clk u.ip
  rw [hr, Option.filter_some] at hto
  by_cases hip : r.ip = u.ip
  · rw [hip, beq_self_eq_true, if_pos rfl] at hto
    cases hbefore : Serial.before r.seq u.seq with
    | true =>
      -- the newer route is entered, and of another age
      rw [refused_of_before hbefore, if_neg Bool.false_ne_true] at hresult
      have hrule : u.Replaces (lastRouteTo u.ip (searched clk u.ip s)) := hto ▸ .inl hbefore
      have htable : (installRoute clk u r (searched clk u.ip s)).routes =
          u.table clk (searched clk u.ip s) := by
        rw [Update.table, hto]
        rfl
      refine iff_of_true ⟨fun _ _ => ⟨_, hresult, htable⟩,
        fun hnot => absurd ⟨hvalid, hrule⟩ hnot⟩ ⟨hip, ?_⟩
      rintro ⟨hseq, -⟩
      rw [hseq, Serial.before_self] at hbefore
      cases hbefore
    | false =>
      -- the table stays as it is, which is wrong for a route of the same age
      rw [(refused_iff u r).2 hbefore, if_pos rfl] at hresult
      have hreplaces : u.Replaces (lastRouteTo u.ip (searched clk u.ip s)) ↔
          u.seq = r.seq ∧ (r.routeValid = false ∨ u.metric < r.metric) := by
        rw [hto, Update.Replaces, hbefore]
        simp
      constructor
      · refine fun hrule => ⟨hip, fun hsame => ?_⟩
        obtain ⟨t, ht, htable⟩ := hrule.replaced hvalid (hreplaces.2 hsame)
        obtain rfl := Option.some.inj (hresult.symm.trans ht)
        exact table_ne_of_same_age hto hsame.2 htable.symm
      · rintro ⟨-, hnot⟩
        exact ⟨fun _ hrule => absurd (hreplaces.1 hrule) hnot, fun _ => hresult⟩
  · -- an entry of the subnet, in whose place no entry for the address is made
    rw [beq_eq_false_iff_ne.2 hip, if_neg Bool.false_ne_true] at hto
    refine iff_of_false (fun hrule => ?_) fun hregular => hip hregular.1
    obtain ⟨t, ht, htable⟩ := hrule.replaced hvalid (hto ▸ trivial)
    have hlength : t.routes.length = (searched clk u.ip s).routes.length := by
      rw [← Option.some.inj (hresult.symm.trans ht)]
      split
      · rfl
      · exact length_installRoute r
    rw [htable, length_table_of_none clk hto] at hlength
    exact Nat.succ_ne_self _ hlength

/-- The rule, after a search that has found nothing. -/
theorem followsRule_iff_of_none (h : InOrder s) (hvalid : validAodvNeigh clk u.nextHop s = true)
    (hf : foundRoute clk u.ip s = none) :
    FollowsRule ok clk u s ↔ ok = true ∧ u.ip ≠ 0 ∧ s.routeReaders = 0 := by
  have hto := lastRouteTo_searched h clk u.ip
  rw [hf, Option.filter_none] at hto
  have hrule : u.Replaces (lastRouteTo u.ip (searched clk u.ip s)) := hto ▸ trivial
  have hlonger := length_table_of_none clk hto
  constructor
  · intro hfollows
    obtain ⟨t, ht, htable⟩ := hfollows.replaced hvalid hrule
    rw [← htable] at hlonger
    rcases updateAodvRoute_cases ht with ⟨-, rfl⟩ | ⟨-, ⟨r, hr, -⟩ | ⟨-, r, s₁, hc, rfl⟩⟩
    · exact absurd hlonger (Nat.succ_ne_self _).symm
    · rw [hf] at hr
      cases hr
    · obtain ⟨rfl, -, rfl⟩ := createAodvRoute_some hc
      have hip : u.ip ≠ 0 := fun hip => by
        rw [length_installRoute, if_pos hip] at hlonger
        exact absurd hlonger (Nat.succ_ne_self _).symm
      refine ⟨rfl, hip, ?_⟩
      by_contra hreaders
      have hlocked : createAodvRoute true u.ip (searched clk u.ip s) = none :=
        createAodvRoute_of_locked hip hreaders
      exact Option.some_ne_none _ (hc.symm.trans hlocked)
  · rintro ⟨rfl, hip, hreaders⟩
    have hcreate : createAodvRoute true u.ip (searched clk u.ip s) =
        some (some (newRoute s.nextPtr u.ip), created u.ip (searched clk u.ip s)) :=
      createAodvRoute_of_unlocked hip hreaders
    have hresult := updateAodvRoute_of_none true hvalid hf
    rw [hcreate] at hresult
    refine ⟨fun _ _ => ⟨_, hresult, ?_⟩, fun hnot => absurd ⟨hvalid, hrule⟩ hnot⟩
    rw [Update.table, hto]
    exact installRoute_created (h.search clk u.ip).distinct hip

/-- `update_aodv_route` follows the rule exactly if the next hop is no valid
neighbour, or the search has found what it is to find, and that is not of the age
of the new route and to be replaced. -/
theorem followsRule_iff (h : InOrder s) (ok : Bool) (clk : Clock) (u : Update) :
    FollowsRule ok clk u s ↔ (validAodvNeigh clk u.nextHop s = true → u.Regular ok clk s) := by
  cases hvalid : validAodvNeigh clk u.nextHop s with
  | false =>
    refine iff_of_true ⟨fun hv => ?_, fun _ => updateAodvRoute_of_invalid hvalid⟩ fun hv =>
      Bool.noConfusion hv
    exact Bool.noConfusion (hvalid.symm.trans hv)
  | true =>
    rw [Update.Regular, findAodvRoute_eq, forall_prop_of_true rfl]
    cases hf : foundRoute clk u.ip s with
    | none => exact followsRule_iff_of_none h hvalid hf
    | some r => exact followsRule_iff_of_found h hvalid hf

/-- A node that knows a route of five hops over its neighbour 2 to node 3. -/
def knownRun : List Event :=
  handled 1 (helloFrom (peer 2) 1) ++ handled 2 (replyFrom (peer 2) plainNode.myIp (peer 3) 5 4)

/-- A route over node 2 to node 3. -/
def viaTwo (metric : Byte) (seq : U32) : Update where
  ip := peer 3
  nextHop := peer 2
  metric := metric
  seq := seq
  dev := some 0

theorem followsRule_iff_newer : ∃ s, runFrom plainNode (clockAt 0) knownRun = some s ∧
    FollowsRule true (clockAt 3) (viaTwo 7 6) s := by
  have hrun : (runFrom plainNode (clockAt 0) knownRun).any
      (fun s => decide ((viaTwo 7 6).Regular true (clockAt 3) s)) = true := by decide +kernel
  obtain ⟨s, t, hs, ht, hregular⟩ := exists_of_runFrom _ hrun
  have h : Listed plainNode t := (Listed.initModule hs).exec ht
  refine ⟨t, ?_, (followsRule_iff h.toInOrder true (clockAt 3) (viaTwo 7 6)).2 fun _ =>
    of_decide_eq_true hregular⟩
  rw [runFrom, hs]
  exact ht

/-- A route of the same age with two hops does not replace the one with more. -/
theorem not_followsRule_shorter :
    ¬∀ s, InOrder s → ∀ (ok : Bool) (clk : Clock) (u : Update), FollowsRule ok clk u s := by
  intro hall
  have hrun : (runFrom plainNode (clockAt 0) knownRun).any (fun s =>
      validAodvNeigh (clockAt 3) (peer 2) s && decide ((viaTwo 2 5).Replaces
        (lastRouteTo (peer 3) (searched (clockAt 3) (peer 3) s))) &&
      (updateAodvRoute true (clockAt 3) (viaTwo 2 5) s).all fun t =>
        decide (t.routes ≠ (viaTwo 2 5).table (clockAt 3) (searched (clockAt 3) (peer 3) s))) =
            true := by
    decide +kernel
  obtain ⟨s, t, hs, ht, hq⟩ := exists_of_runFrom _ hrun
  simp only [Bool.and_eq_true, decide_eq_true_eq] at hq
  obtain ⟨⟨hvalid, hrule⟩, hkept⟩ := hq
  have h : Listed plainNode t := (Listed.initModule hs).exec ht
  obtain ⟨t', ht', htable⟩ :=
    (hall t h.toInOrder true (clockAt 3) (viaTwo 2 5)).replaced hvalid hrule
  have hne := of_decide_eq_true (Option.all_eq_true _ _ |>.1 hkept t' ht')
  exact hne htable

end MobileCloudCaching.Aodv
