import Mathlib.Data.List.Chain
import Mathlib.Data.Fintype.Card

/-!
# Graphs without cycles

A directed graph is a relation.  When one vertex changes its edges, no cycle comes up as long as its
new edges lead to where no old path comes back from (`Acyclic.of_update`).  A mark that the edges
pass on tells where no path leads (`mark_of_reach`).  A walk in such a graph passes each vertex at
most once, so that following single edges comes to an end (`Acyclic.follow_end`).
-/

namespace Cycles

open Relation

variable {α : Type*} {R R' : α → α → Prop} {v x y : α}

/-- No path leads back to its start. -/
def Acyclic (R : α → α → Prop) : Prop := ∀ x, ¬TransGen R x x

theorem not_acyclic_of_two (hxy : R x y) (hyx : R y x) : ¬Acyclic R :=
  fun h => h x (.tail (.single hxy) hyx)

/-- A mark that each edge passes on is passed on by a path. -/
theorem mark_of_reach {S : α → Prop} (hS : ∀ x y, R x y → S x → S y) (hx : S x)
    (h : ReflTransGen R x y) :
    S y := by
  induction h with
  | refl => exact hx
  | tail _ hstep ih => exact hS _ _ hstep ih

/-- A path to `v` needs none of the new edges, which start from `v`. -/
theorem reach_old (hR : ∀ x y, R' x y → R x y ∨ x = v) (h : ReflTransGen R' x y) :
    ReflTransGen R x y ∨ ReflTransGen R x v := by
  induction h with
  | refl => exact .inl .refl
  | tail _ hstep ih =>
    rcases ih with ih | ih
    · rcases hR _ _ hstep with hold | rfl
      · exact .inl (ih.tail hold)
      · exact .inr ih
    · exact .inr ih

theorem Acyclic.of_update (h : Acyclic R)
    (hR : ∀ x y, R' x y → R x y ∨ x = v ∧ ¬ReflTransGen R y v) : Acyclic R' := by
  -- a path runs along old edges, or from `v` along a new one
  have hpath : ∀ {x y}, TransGen R' x y → TransGen R x y ∨
      ReflTransGen R' x v ∧ ∃ z, ¬ReflTransGen R z v ∧ ReflTransGen R' z y := by
    intro x y hxy
    induction hxy with
    | single hstep =>
      rcases hR _ _ hstep with hold | ⟨rfl, hnew⟩
      · exact .inl (.single hold)
      · exact .inr ⟨.refl, _, hnew, .refl⟩
    | tail hinit hstep ih =>
      rcases ih with ih | ⟨hxv, z, hz, hzy⟩
      · rcases hR _ _ hstep with hold | ⟨rfl, hnew⟩
        · exact .inl (ih.tail hold)
        · exact .inr ⟨hinit.to_reflTransGen, _, hnew, .refl⟩
      · exact .inr ⟨hxv, z, hz, hzy.tail hstep⟩
  intro x hx
  rcases hpath hx with hold | ⟨hxv, z, hz, hzx⟩
  · exact h x hold
  · have hback := reach_old (fun x y hxy => (hR x y hxy).imp_right And.left) (hzx.trans hxv)
    exact hz (or_self_iff.1 hback)

/-! ## Walks -/

theorem Acyclic.nodup {l : List α} (h : Acyclic R) (hl : l.IsChain R) : l.Nodup := by
  have htrans : l.IsChain (TransGen R) := hl.imp fun _ _ => .single
  refine (List.isChain_iff_pairwise.1 htrans).imp fun {x y} hxy he => ?_
  exact h x (he ▸ hxy)

/-- The vertices that are passed when one edge is followed from each, `fuel` vertices at most. -/
def follow (next : α → Option α) : ℕ → α → List α
  | 0, _ => []
  | fuel + 1, x => x :: (next x).elim [] (follow next fuel)

section Follow

variable {next : α → Option α} {fuel : ℕ}

theorem follow_chain (hnext : ∀ x y, next x = some y → R x y) (fuel : ℕ) (x : α) :
    (follow next fuel x).IsChain R := by
  induction fuel generalizing x with
  | zero => exact .nil
  | succ fuel ih =>
    rw [follow]
    cases hx : next x with
    | none => exact .singleton x
    | some y =>
      refine .cons (ih y) fun z hz => ?_
      cases fuel with
      | zero => exact absurd hz (Option.not_mem_none z)
      | succ fuel => exact Option.some.inj hz ▸ hnext x y hx

/-- The walk has used up its fuel, or has come to a vertex without an edge. -/
theorem follow_stops (fuel : ℕ) (x : α) : (follow next fuel x).length = fuel ∨
    (∃ y ∈ (follow next fuel x).getLast?, next y = none) ∧
    ∀ k, fuel ≤ k → follow next k x = follow next fuel x := by
  induction fuel generalizing x with
  | zero => exact .inl rfl
  | succ fuel ih =>
    cases hx : next x with
    | none =>
      have hone : ∀ k, follow next (k + 1) x = [x] := fun k => by rw [follow, hx]; rfl
      refine .inr ⟨⟨x, by rw [hone]; rfl, hx⟩, fun k hk => ?_⟩
      obtain ⟨k, rfl⟩ := Nat.exists_eq_succ_of_ne_zero (by omega : k ≠ 0)
      rw [hone, hone]
    | some y =>
      have hcons : ∀ k, follow next (k + 1) x = x :: follow next k y := fun k => by
        rw [follow, hx]
        rfl
      rcases ih y with hlen | ⟨⟨z, hz, hend⟩, hmore⟩
      · exact .inl (by rw [hcons, List.length_cons, hlen])
      · refine .inr ⟨⟨z, ?_, hend⟩, fun k hk => ?_⟩
        · rw [hcons, List.getLast?_cons, Option.mem_def.1 hz]
          rfl
        · obtain ⟨k, rfl⟩ := Nat.exists_eq_succ_of_ne_zero (by omega : k ≠ 0)
          rw [hcons, hcons, hmore k (by omega)]

/-- In a finite graph without cycles, a walk ends where no edge leads on. -/
theorem Acyclic.follow_end [Fintype α] (h : Acyclic R) (hnext : ∀ x y, next x = some y → R x y)
    (x : α) (hfuel : Fintype.card α < fuel) : (follow next fuel x).Nodup ∧
    (∃ y ∈ (follow next fuel x).getLast?, next y = none) ∧
    ∀ k, fuel ≤ k → follow next k x = follow next fuel x := by
  have hnodup := h.nodup (follow_chain hnext fuel x)
  refine ⟨hnodup, (follow_stops fuel x).resolve_left fun hlen => ?_⟩
  have := hnodup.length_le_card
  omega

end Follow

end Cycles
