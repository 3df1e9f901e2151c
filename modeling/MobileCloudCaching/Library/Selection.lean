import Mathlib.Algebra.BigOperators.Group.Finset.Piecewise
import Mathlib.Algebra.Order.BigOperators.Group.Finset
import Mathlib.Algebra.Order.Group.Nat

/-!
# Choosing a cheapest assignment

Offers `a : α` have a price and sell some elements `b : β`.  An assignment picks an
offer for each of several distinct elements that are not taken yet.  An assignment that
no remaining offer undercuts (`NearestFirst`) is a cheapest one among the assignments
of its size (`NearestFirst.cost_le`).
-/

namespace Selection

variable {α β M : Type*} [DecidableEq β] [AddCommMonoid M] [LinearOrder M] [IsOrderedAddMonoid M]

/-- The exchange argument: when `P` is nowhere dearer than `Q` on common elements, and no element of
`P` is dearer than an element of `Q` outside `P`, a set `Q` of the same size costs at least as much
as `P`. -/
theorem sum_le_sum_of_exchange (p q : β → M) {P Q : Finset β} (hcard : P.card = Q.card)
    (hcommon : ∀ b ∈ P, b ∈ Q → p b ≤ q b) (h : ∀ a ∈ P, ∀ b ∈ Q, b ∉ P → p a ≤ q b) :
    ∑ a ∈ P, p a ≤ ∑ b ∈ Q, q b := by
  have hsdiff : (P \ Q).card = (Q \ P).card := Finset.card_sdiff_comm hcard
  have hinter : ∑ a ∈ P ∩ Q, p a ≤ ∑ b ∈ Q ∩ P, q b := by
    rw [Finset.inter_comm Q P]
    refine Finset.sum_le_sum fun b hb => ?_
    obtain ⟨hP, hQ⟩ := Finset.mem_inter.1 hb
    exact hcommon b hP hQ
  have hrest : ∑ a ∈ P \ Q, p a ≤ ∑ b ∈ Q \ P, q b := by
    rcases (P \ Q).eq_empty_or_nonempty with he | hne
    · have he' : Q \ P = ∅ := by rw [← Finset.card_eq_zero, ← hsdiff, he, Finset.card_empty]
      rw [he, he', Finset.sum_empty, Finset.sum_empty]
    · have hP : ∀ a ∈ P \ Q, p a ≤ (P \ Q).sup' hne p := fun a ha => Finset.le_sup' p ha
      have hQ : ∀ b ∈ Q \ P, (P \ Q).sup' hne p ≤ q b := fun b hb =>
        Finset.sup'_le hne p fun a ha =>
          h a (Finset.mem_sdiff.1 ha).1 b (Finset.mem_sdiff.1 hb).1 (Finset.mem_sdiff.1 hb).2
      calc ∑ a ∈ P \ Q, p a
          ≤ (P \ Q).card • (P \ Q).sup' hne p := Finset.sum_le_card_nsmul _ _ _ hP
        _ = (Q \ P).card • (P \ Q).sup' hne p := by rw [hsdiff]
        _ ≤ ∑ b ∈ Q \ P, q b := Finset.card_nsmul_le_sum _ _ _ hQ
  calc ∑ a ∈ P, p a
      = ∑ a ∈ P ∩ Q, p a + ∑ a ∈ P \ Q, p a := (Finset.sum_inter_add_sum_sdiff P Q _).symm
    _ ≤ ∑ b ∈ Q ∩ P, q b + ∑ b ∈ Q \ P, q b := add_le_add hinter hrest
    _ = ∑ b ∈ Q, q b := Finset.sum_inter_add_sum_sdiff Q P _

/-! ## Assignments -/

variable (price : α → M) (sells : α → β → Prop) (taken : β → Prop)

/-- `picks` chooses an offer for each of several distinct elements that are not taken. -/
structure Assignment (picks : List (α × β)) : Prop where
  nodup : (picks.map Prod.snd).Nodup
  fresh : ∀ x ∈ picks, ¬ taken x.2
  sold : ∀ x ∈ picks, sells x.1 x.2

/-- The sum of the prices of the chosen offers. -/
def cost (picks : List (α × β)) : M := (picks.map fun x => price x.1).sum

/-- No offer for a picked element, or for one that is still available, is cheaper than a chosen
offer. -/
def NearestFirst (picks : List (α × β)) : Prop :=
  ∀ x ∈ picks, ∀ a b, sells a b → (b = x.2 ∨ ¬ taken b ∧ b ∉ picks.map Prod.snd) →
    price x.1 ≤ price a

/-- The price paid for `b`, zero when `b` is not picked. -/
def paid (picks : List (α × β)) (b : β) : M :=
  ((picks.find? fun x => x.2 = b).map fun x => price x.1).getD 0

variable {price sells taken}

omit [LinearOrder M] [IsOrderedAddMonoid M] in
theorem paid_of_mem {picks : List (α × β)} (hnd : (picks.map Prod.snd).Nodup) {x : α × β}
    (hx : x ∈ picks) : paid price picks x.2 = price x.1 := by
  induction picks with
  | nil => simp at hx
  | cons y picks ih =>
    rw [List.map_cons, List.nodup_cons] at hnd
    by_cases hy : y.2 = x.2
    · have : y = x := by
        rcases List.mem_cons.1 hx with rfl | hx
        · rfl
        · exact absurd (List.mem_map.2 ⟨x, hx, hy.symm⟩) hnd.1
      simp [paid, this]
    · have hx' : x ∈ picks := (List.mem_cons.1 hx).resolve_left fun e => hy (by rw [e])
      rw [← ih hnd.2 hx']
      simp [paid, hy]

omit [LinearOrder M] [IsOrderedAddMonoid M] in
theorem cost_eq_sum_paid {picks : List (α × β)} (hnd : (picks.map Prod.snd).Nodup) :
    cost price picks = ∑ b ∈ (picks.map Prod.snd).toFinset, paid price picks b := by
  rw [List.sum_toFinset _ hnd, List.map_map, cost]
  congr 1
  exact List.map_congr_left fun x hx => (paid_of_mem hnd hx).symm

/-- Serving the nearest offers first is optimal. -/
theorem NearestFirst.cost_le {picks other : List (α × β)}
    (hgreedy : NearestFirst price sells taken picks) (hpicks : Assignment sells taken picks)
    (hother : Assignment sells taken other) (hlen : other.length = picks.length) :
    cost price picks ≤ cost price other := by
  rw [cost_eq_sum_paid hpicks.nodup, cost_eq_sum_paid hother.nodup]
  apply sum_le_sum_of_exchange
  · rw [List.toFinset_card_of_nodup hpicks.nodup, List.toFinset_card_of_nodup hother.nodup,
      List.length_map, List.length_map, hlen]
  · intro b hb hb'
    obtain ⟨x, hx, rfl⟩ := List.mem_map.1 (List.mem_toFinset.1 hb)
    obtain ⟨y, hy, hyx⟩ := List.mem_map.1 (List.mem_toFinset.1 hb')
    rw [paid_of_mem hpicks.nodup hx, ← hyx, paid_of_mem hother.nodup hy]
    exact hgreedy x hx y.1 y.2 (hother.sold y hy) (Or.inl hyx)
  · intro a ha b hb hab
    obtain ⟨x, hx, rfl⟩ := List.mem_map.1 (List.mem_toFinset.1 ha)
    obtain ⟨y, hy, rfl⟩ := List.mem_map.1 (List.mem_toFinset.1 hb)
    rw [paid_of_mem hpicks.nodup hx, paid_of_mem hother.nodup hy]
    exact hgreedy x hx y.1 y.2 (hother.sold y hy)
      (Or.inr ⟨hother.fresh y hy, fun h => hab (List.mem_toFinset.2 h)⟩)

end Selection
