import MobileCloudCaching.Aodv.Readings

/-!
# Where the routes lead

A packet goes from node to node along the valid routes to its destination.  As long as the
steps of the network keep what others rely on, its way passes each node at most once, the entries
along it do not get older, and it ends at the destination or where there is no valid route.
-/

namespace MobileCloudCaching.Aodv.Mesh

open Transition Cycles

variable {n : ℕ} (node : Fin n → Params)

/-- The node to which `v` hands a packet for `d`. -/
def nextNode (d : U32) (s : Mesh n) (v : Fin n) : Option (Fin n) :=
  (List.finRange n).find? fun w => decide (Edge node d s v w)

/-- The way of a packet for `d` that starts at `v`. -/
def way (d : U32) (s : Mesh n) (v : Fin n) : List (Fin n) := follow (nextNode node d s) (n + 1) v

/-- The entry of `w` for `d` is at least as new as the one that `v` uses, unless `w`
is the destination. -/
def NoOlder (d : U32) (s : Mesh n) (v w : Fin n) : Prop :=
  (node w).myIp = d ∨ ∀ r ∈ (s.router v).routes, r.ip = d → r.routeValid = true →
    Serves { ip := d, seq := r.seq } (s.router w)

/-- What the way of a packet for `d` that starts at `v` is like. -/
structure LeadsOn (d : U32) (s : Mesh n) (v : Fin n) : Prop where
  once : (way node d s v).Nodup
  noOlder : (way node d s v).IsChain (NoOlder node d s)
  ends : ∃ w ∈ (way node d s v).getLast?, (node w).myIp = d ∨
    ∀ u, ∀ r ∈ (s.router w).routes, r.ip = d → r.routeValid = true → r.nextHop ≠ (node u).myIp
  /-- A packet that could go on for longer would come no further. -/
  whole : ∀ k, follow (nextNode node d s) (n + 1 + k) v = way node d s v

section

variable {node} {s : Mesh n} {v w : Fin n} {d : U32}

theorem edge_of_nextNode (h : nextNode node d s v = some w) : Edge node d s v w := by
  have hfound := List.find?_some h
  exact of_decide_eq_true hfound

theorem not_edge_of_nextNode (h : nextNode node d s v = none) (w : Fin n) : ¬Edge node d s v w :=
  of_decide_eq_false (by simpa using List.find?_eq_none.1 h w (List.mem_finRange w))

theorem noOlder_of_edge (hinj : Function.Injective fun v => (node v).myIp) (h : Inv node s)
    (he : Edge node d s v w) : NoOlder node d s v w := by
  by_cases hw : (node w).myIp = d
  · exact .inl hw
  · refine .inr fun r hr hip _ => ?_
    have hserves : Serves { ip := d, seq := r.seq } (s.router v) := ⟨r, hr, hip, BitVec.le_refl _⟩
    exact (serves_along hinj h he (.inr hserves)).resolve_left hw

theorem Inv.leadsOn (hinj : Function.Injective fun v => (node v).myIp) (h : Inv node s) (d : U32)
    (v : Fin n) : LeadsOn node d s v := by
  have hedge : ∀ x y, nextNode node d s x = some y → Edge node d s x y := fun _ _ =>
    edge_of_nextNode
  have hfuel : Fintype.card (Fin n) < n + 1 := by rw [Fintype.card_fin]; exact Nat.lt_succ_self n
  obtain ⟨hnodup, ⟨w, hw, hend⟩, hmore⟩ := (h.loopFree d).follow_end hedge v hfuel
  refine ⟨hnodup, ?_, ⟨w, hw, ?_⟩, fun k => hmore _ (Nat.le_add_right _ _)⟩
  · exact (follow_chain hedge (n + 1) v).imp fun x y hxy => noOlder_of_edge hinj h hxy
  · by_cases hd : (node w).myIp = d
    · exact .inl hd
    · exact .inr fun u r hr hip hv hhop =>
        not_edge_of_nextNode hend u ⟨fun hself => hd hself.2, r, hr, hip, hv, hhop⟩

end

theorem ways_end (hp : ∀ v, (node v).AddressesDiffer)
    (hinj : Function.Injective fun v => (node v).myIp) (clk : Fin n → Clock) (s : Mesh n)
    (hinit : ∀ v, initModule (node v) (clk v) = some (s.router v)) (hair : s.air = [])
    (turns : List (Turn n)) (hok : AllSteps (Turn.step node) (Turn.Careful node) turns s) :
    Along (Turn.step node) (fun t => ∀ d v, LeadsOn node d t v) turns s :=
  (along_inv node hp hinj hinit hair hok).mono fun _ h => h.leadsOn hinj

/-- The packets of node 0 for node 2 go through node 1. -/
theorem ways_end_lineRun : (∃ t, exec (Turn.step threeNodes) (lineTurns 0) loaded = some t ∧
      way threeNodes (peer 3) t 0 = [0, 1, 2]) ∧
    Along (Turn.step threeNodes) (fun t => ∀ d v, LeadsOn threeNodes d t v) (lineTurns 0)
      loaded := by
  have hrun : (exec (Turn.step threeNodes) (lineTurns 0) loaded).any (fun t =>
      decide (way threeNodes (peer 3) t 0 = [0, 1, 2])) = true := by
        decide +kernel
  obtain ⟨t, ht, hway⟩ := (Option.any_eq_true _ _).1 hrun
  exact ⟨⟨t, ht, of_decide_eq_true hway⟩,
    ways_end threeNodes threeNodes_differ threeNodes_injective
    (fun _ => clockAt 0) loaded loaded_init rfl (lineTurns 0) (by decide +kernel)⟩

end MobileCloudCaching.Aodv.Mesh
