import Mathlib.Data.List.Basic

/-!
# Runs of a partial transition function

A system is a partial function `step : ι → σ → Option σ`: the label says which action is taken and
`none` says that the action is not possible (or not defined) in this state.  `exec` runs a list of
labels, `AllSteps ok` says that every action of a run is taken in a state where `ok` holds, and
`Along P` says that `P` holds in every state the run passes through.
-/

namespace Transition

variable {ι σ : Type*} (step : ι → σ → Option σ)

/-- Run a list of actions. -/
def exec : List ι → σ → Option σ
  | [], s => some s
  | i :: l, s => (step i s).bind (exec l)

/-- Every action of the run is taken in a state that meets `ok`. -/
def AllSteps (ok : ι → σ → Prop) : List ι → σ → Prop
  | [], _ => True
  | i :: l, s => ok i s ∧ ∀ t, step i s = some t → AllSteps ok l t

/-- `P` holds in every state of the run, the first one included. -/
def Along (P : σ → Prop) : List ι → σ → Prop
  | [], s => P s
  | i :: l, s => P s ∧ ∀ t, step i s = some t → Along P l t

section Runs

variable {step}

@[simp] theorem exec_nil (s : σ) : exec step [] s = some s := rfl

theorem exec_cons (i : ι) (l : List ι) (s : σ) :
    exec step (i :: l) s = (step i s).bind (exec step l) := rfl

theorem exec_cons_eq_some {i : ι} {l : List ι} {s u : σ} :
    exec step (i :: l) s = some u ↔ ∃ t, step i s = some t ∧ exec step l t = some u := by
  rw [exec_cons, Option.bind_eq_some_iff]

theorem exec_append (l₁ l₂ : List ι) (s : σ) :
    exec step (l₁ ++ l₂) s = (exec step l₁ s).bind (exec step l₂) := by
  induction l₁ generalizing s with
  | nil => rfl
  | cons i l₁ ih =>
    rw [List.cons_append, exec_cons, exec_cons]
    cases step i s with
    | none => rfl
    | some t => exact ih t

theorem AllSteps.cons {ok : ι → σ → Prop} {i : ι} {l : List ι} {s t : σ}
    (h : AllSteps step ok (i :: l) s) (hs : step i s = some t) :
    ok i s ∧ AllSteps step ok l t := ⟨h.1, h.2 t hs⟩

theorem AllSteps.mono {ok ok' : ι → σ → Prop} (hok : ∀ i s, ok i s → ok' i s) {l : List ι} {s : σ}
    (h : AllSteps step ok l s) : AllSteps step ok' l s := by
  induction l generalizing s with
  | nil => trivial
  | cons i l ih => exact ⟨hok i s h.1, fun t ht => ih (h.2 t ht)⟩

theorem AllSteps.and {ok ok' : ι → σ → Prop} {l : List ι} {s : σ} (h : AllSteps step ok l s)
    (h' : AllSteps step ok' l s) : AllSteps step (fun i s => ok i s ∧ ok' i s) l s := by
  induction l generalizing s with
  | nil => trivial
  | cons i l ih => exact ⟨⟨h.1, h'.1⟩, fun t ht => ih (h.2 t ht) (h'.2 t ht)⟩

theorem allSteps_of_mem {ok : ι → Prop} {l : List ι} (h : ∀ i ∈ l, ok i) (s : σ) :
    AllSteps step (fun i _ => ok i) l s := by
  induction l generalizing s with
  | nil => trivial
  | cons i l ih =>
    obtain ⟨hi, hl⟩ := List.forall_mem_cons.1 h
    exact ⟨hi, fun t _ => ih hl t⟩

/-- A condition that can be decided for each step can be decided for a run. -/
instance decidableAllSteps {ok : ι → σ → Prop} [∀ i s, Decidable (ok i s)] :
    ∀ l s, Decidable (AllSteps step ok l s)
  | [], _ => isTrue trivial
  | i :: l, s =>
    match hs : step i s with
    | none => decidable_of_iff (ok i s) (by simp [AllSteps, hs])
    | some t =>
      haveI : Decidable (AllSteps step ok l t) := decidableAllSteps l t
      decidable_of_iff (ok i s ∧ AllSteps step ok l t) (by simp [AllSteps, hs])

theorem allSteps_of_forall {ok : ι → σ → Prop} (hok : ∀ i s, ok i s) (l : List ι) (s : σ) :
    AllSteps step ok l s := by
  induction l generalizing s with
  | nil => trivial
  | cons i l ih => exact ⟨hok i s, fun t _ => ih t⟩

/-- A condition on the actions alone. -/
theorem allSteps_const {ok : ι → Prop} {l : List ι} {s u : σ} (he : exec step l s = some u) :
    AllSteps step (fun i _ => ok i) l s ↔ ∀ i ∈ l, ok i := by
  induction l generalizing s with
  | nil => exact iff_of_true trivial (List.forall_mem_nil _)
  | cons i l ih =>
    obtain ⟨t, ht, hl⟩ := exec_cons_eq_some.1 he
    simp only [AllSteps, ht, Option.some.injEq, forall_eq', ih hl, List.forall_mem_cons]

/-- The condition of a run splits at every point of the run. -/
theorem allSteps_append {ok : ι → σ → Prop} {l₁ l₂ : List ι} {s t : σ}
    (he : exec step l₁ s = some t) :
    AllSteps step ok (l₁ ++ l₂) s ↔ AllSteps step ok l₁ s ∧ AllSteps step ok l₂ t := by
  induction l₁ generalizing s with
  | nil =>
    obtain rfl : s = t := Option.some.inj he
    exact (and_iff_right trivial).symm
  | cons i l₁ ih =>
    obtain ⟨u, hu, hl⟩ := exec_cons_eq_some.1 he
    simp only [List.cons_append, AllSteps, hu, Option.some.injEq, forall_eq', ih hl, and_assoc]

theorem Along.start {P : σ → Prop} {l : List ι} {s : σ} (h : Along step P l s) : P s := by
  cases l with
  | nil => exact h
  | cons i l => exact h.1

theorem Along.mono {P Q : σ → Prop} (hPQ : ∀ s, P s → Q s) {l : List ι} {s : σ}
    (h : Along step P l s) : Along step Q l s := by
  induction l generalizing s with
  | nil => exact hPQ s h
  | cons i l ih => exact ⟨hPQ s h.1, fun t ht => ih (h.2 t ht)⟩

/-- A property of all states of a run holds in the state reached by any first part of it. -/
theorem Along.reached {P : σ → Prop} {l₁ l₂ : List ι} {s t : σ} (h : Along step P (l₁ ++ l₂) s)
    (he : exec step l₁ s = some t) : P t := by
  induction l₁ generalizing s with
  | nil =>
    obtain rfl : s = t := Option.some.inj he
    exact h.start
  | cons i l₁ ih =>
    obtain ⟨u, hu, hl⟩ := exec_cons_eq_some.1 he
    exact ih (h.2 u hu) hl

/-- What holds in every state holds where each action is taken. -/
theorem Along.allSteps {P : σ → Prop} {ok : ι → σ → Prop} (hok : ∀ i s, P s → ok i s) {l : List ι}
    {s : σ} (h : Along step P l s) : AllSteps step ok l s := by
  induction l generalizing s with
  | nil => trivial
  | cons i l ih => exact ⟨hok i s h.1, fun t ht => ih (h.2 t ht)⟩

/-- The invariant rule for runs whose steps all meet a condition. -/
theorem along_of_step {P : σ → Prop} {ok : ι → σ → Prop}
    (hstep : ∀ i s t, P s → ok i s → step i s = some t → P t) {l : List ι} {s : σ} (hs : P s)
    (hok : AllSteps step ok l s) : Along step P l s := by
  induction l generalizing s with
  | nil => exact hs
  | cons i l ih => exact ⟨hs, fun t ht => ih (hstep i s t hs hok.1 ht) (hok.2 t ht)⟩

/-- A run can be taken when each of its actions is possible where it is taken, which `P` tells. -/
theorem exists_exec {P : σ → Prop} {ok : ι → σ → Prop}
    (hstep : ∀ i s, P s → ok i s → ∃ t, step i s = some t ∧ P t) {l : List ι} {s : σ} (hs : P s)
    (hok : AllSteps step ok l s) : ∃ t, exec step l s = some t := by
  induction l generalizing s with
  | nil => exact ⟨s, rfl⟩
  | cons i l ih =>
    obtain ⟨t, ht, hP⟩ := hstep i s hs hok.1
    obtain ⟨u, hu⟩ := ih hP (hok.2 t ht)
    exact ⟨u, exec_cons_eq_some.2 ⟨t, ht, hu⟩⟩

/-- A system that follows each step follows a run. -/
theorem exec_follows {τ : Type*} {I : σ → Prop} {ok : ι → σ → Prop}
    {R : σ → τ → Prop} {f : ι → τ → τ} (hI : ∀ i s t, I s → ok i s → step i s = some t → I t)
    (hstep : ∀ i s t u, I s → ok i s → step i s = some t → R s u → R t (f i u)) {l : List ι}
    {s t : σ} {u : τ} (hs : I s) (hok : AllSteps step ok l s) (hR : R s u)
    (he : exec step l s = some t) :
    R t (l.foldl (fun u i => f i u) u) := by
  induction l generalizing s u with
  | nil =>
    obtain rfl : s = t := Option.some.inj he
    exact hR
  | cons i l ih =>
    obtain ⟨v, hv, hl⟩ := exec_cons_eq_some.1 he
    exact ih (hI i s v hs hok.1 hv) (hok.2 v hv) (hstep i s v u hs hok.1 hv hR) hl

/-- The invariant rule at the end of a run. -/
theorem exec_of_step {P : σ → Prop} (hstep : ∀ i s t, P s → step i s = some t → P t) {l : List ι}
    {s t : σ} (hs : P s) (he : exec step l s = some t) : P t := by
  induction l generalizing s with
  | nil =>
    obtain rfl : s = t := Option.some.inj he
    exact hs
  | cons i l ih =>
    obtain ⟨u, hu, hl⟩ := exec_cons_eq_some.1 he
    exact ih (hstep i s u hs hu) hl

/-- The states that a run goes through. -/
def Passed (step : ι → σ → Option σ) (l : List ι) (s u : σ) : Prop :=
  ∃ l₁, l₁ <+: l ∧ exec step l₁ s = some u

theorem Passed.cons {i : ι} {l : List ι} {s t u : σ} (ht : step i s = some t)
    (h : Passed step l t u) : Passed step (i :: l) s u := by
  obtain ⟨l₁, hl, he⟩ := h
  exact ⟨i :: l₁, List.cons_prefix_cons.2 ⟨rfl, hl⟩, exec_cons_eq_some.2 ⟨t, ht, he⟩⟩

theorem passed_start (l : List ι) (s : σ) : Passed step l s s := ⟨[], List.nil_prefix, rfl⟩

/-- The invariant rule for what a state owes to the states before it: `P A s` says that it owes
nothing to others than those in `A`. -/
theorem exec_of_step_passed {P : (σ → Prop) → σ → Prop}
    (hmono : ∀ A B s, (∀ u, A u → B u) → P A s → P B s)
    (hstep : ∀ A i s t, A s → P A s → step i s = some t → P A t) {l : List ι} {s t : σ}
    (hs : P (· = s) s) (he : exec step l s = some t) : P (Passed step l s) t := by
  suffices h : ∀ (l : List ι) (A : σ → Prop) (s : σ), A s → P A s → exec step l s = some t →
      P (fun u => A u ∨ Passed step l s u) t from
    hmono _ _ _ (fun u hu => hu.elim (fun hu : u = s => hu.symm ▸ passed_start l s) id)
      (h l (· = s) s rfl hs he)
  intro l
  induction l with
  | nil =>
    intro A s _ hP he
    obtain rfl : s = t := Option.some.inj he
    exact hmono _ _ _ (fun _ => Or.inl) hP
  | cons i l ih =>
    intro A s hA hP he
    obtain ⟨u, hu, hl⟩ := exec_cons_eq_some.1 he
    have hnext := ih (fun v => A v ∨ v = u) u (Or.inr rfl)
      (hmono _ _ _ (fun _ => Or.inl) (hstep A i s u hA hP hu)) hl
    refine hmono _ _ _ ?_ hnext
    rintro v ((hv | rfl) | hv)
    · exact Or.inl hv
    · exact Or.inr ((passed_start l v).cons hu)
    · exact Or.inr (hv.cons hu)

/-- When each single step keeps `P` exactly if it meets `ok`, a run keeps `P` throughout exactly if
all its steps meet `ok`, provided that the run can be taken. -/
theorem along_iff_allSteps {P : σ → Prop} {ok : ι → σ → Prop} {l : List ι}
    (hstep : ∀ i ∈ l, ∀ s t, P s → step i s = some t → (P t ↔ ok i s)) {s u : σ} (hs : P s)
    (he : exec step l s = some u) : Along step P l s ↔ AllSteps step ok l s := by
  induction l generalizing s with
  | nil => exact iff_of_true hs trivial
  | cons i l ih =>
    obtain ⟨t, ht, hl⟩ := exec_cons_eq_some.1 he
    obtain ⟨hi, hstep⟩ := List.forall_mem_cons.1 hstep
    simp only [Along, AllSteps, ht, Option.some.injEq, forall_eq']
    constructor
    · rintro ⟨-, h⟩
      have hok := (hi s t hs ht).1 h.start
      exact ⟨hok, (ih hstep h.start hl).1 h⟩
    · rintro ⟨hok, h⟩
      exact ⟨hs, (ih hstep ((hi s t hs ht).2 hok) hl).2 h⟩

/-- The same for runs that keep to a domain, with an invariant that the steps rely on. -/
theorem along_iff_allSteps_of_inv {I P : σ → Prop} {dom ok : ι → σ → Prop}
    (hI : ∀ i s t, I s → dom i s → step i s = some t → I t)
    (hstep : ∀ i s t, I s → dom i s → P s → step i s = some t → (P t ↔ ok i s))
    {l : List ι} {s u : σ} (hs : I s) (hP : P s) (hdom : AllSteps step dom l s)
    (he : exec step l s = some u) :
    Along step P l s ↔ AllSteps step ok l s := by
  induction l generalizing s with
  | nil => exact iff_of_true hP trivial
  | cons i l ih =>
    obtain ⟨t, ht, hl⟩ := exec_cons_eq_some.1 he
    obtain ⟨hi, hdom⟩ := hdom.cons ht
    simp only [Along, AllSteps, ht, Option.some.injEq, forall_eq']
    have hone := hstep i s t hs hi hP ht
    constructor
    · rintro ⟨-, h⟩
      exact ⟨hone.1 h.start, (ih (hI i s t hs hi ht) h.start hdom hl).1 h⟩
    · rintro ⟨hok, h⟩
      exact ⟨hP, (ih (hI i s t hs hi ht) (hone.2 hok) hdom hl).2 h⟩

/-- When `P`, once lost, stays lost, and each step keeps it exactly if it meets `ok`, it holds at
the end of a run exactly if all steps of the run meet `ok`.  `I` is what the steps rely on. -/
theorem reached_iff_allSteps {I P : σ → Prop} {ok : ι → σ → Prop}
    (hI : ∀ i s t, I s → step i s = some t → I t)
    (hstep : ∀ i s t, I s → step i s = some t → (P t ↔ P s ∧ ok i s)) {l : List ι}
    {s u : σ} (hs : I s) (he : exec step l s = some u) : P u ↔ P s ∧ AllSteps step ok l s := by
  induction l generalizing s with
  | nil =>
    obtain rfl : s = u := Option.some.inj he
    exact (and_iff_left trivial).symm
  | cons i l ih =>
    obtain ⟨t, ht, hl⟩ := exec_cons_eq_some.1 he
    simp only [AllSteps, ht, Option.some.injEq, forall_eq']
    rw [ih (hI i s t hs ht) hl, hstep i s t hs ht, and_assoc]

/-- A run comes to its end, with `P`, exactly if all its steps meet `ok`, when a step that meets it
is possible. -/
theorem exists_reached_iff_allSteps {I P : σ → Prop} {ok : ι → σ → Prop}
    (hI : ∀ i s t, I s → step i s = some t → I t)
    (hstep : ∀ i s t, I s → step i s = some t → (P t ↔ P s ∧ ok i s))
    (hdef : ∀ i s, ok i s → ∃ t, step i s = some t) {l : List ι} {s : σ} (hs : I s) (hP : P s) :
    (∃ u, exec step l s = some u ∧ P u) ↔ AllSteps step ok l s := by
  constructor
  · rintro ⟨u, hu, h⟩
    exact ((reached_iff_allSteps hI hstep hs hu).1 h).2
  · intro h
    obtain ⟨u, hu⟩ := exists_exec (P := fun _ => True)
      (fun i s _ hok => (hdef i s hok).imp fun t ht => ⟨ht, trivial⟩) trivial h
    exact ⟨u, hu, (reached_iff_allSteps hI hstep hs hu).2 ⟨hP, h⟩⟩

end Runs

end Transition
