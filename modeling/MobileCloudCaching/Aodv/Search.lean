import MobileCloudCaching.Aodv.Thread

/-!
# Searching the route table

A search marks the entries on its way that have run out.  It changes no address, prefix or next hop,
and it has no influence on what a later search at the same time finds.
-/

namespace MobileCloudCaching.Aodv

/-! ## Lists that are related element by element -/

section Related

variable {α β : Type*} {R : α → β → Prop} {l : List α} {l' : List β}

theorem exists_left_of_forall₂ (h : List.Forall₂ R l l') {y : β}
    (hy : y ∈ l') : ∃ x ∈ l, R x y := by
  induction h with
  | nil => exact absurd hy List.not_mem_nil
  | cons hxy _ ih =>
    rcases List.mem_cons.1 hy with rfl | hy
    · exact ⟨_, List.mem_cons_self, hxy⟩
    · obtain ⟨x, hx, hR⟩ := ih hy
      exact ⟨x, List.mem_cons_of_mem _ hx, hR⟩

theorem exists_right_of_forall₂ (h : List.Forall₂ R l l') {x : α} (hx : x ∈ l) : ∃ y ∈ l', R x y :=
  exists_left_of_forall₂ h.flip hx

theorem map_eq_of_forall₂ {γ : Type*} {f : α → γ} {g : β → γ} (h : List.Forall₂ R l l')
    (hR : ∀ x y, R x y → g y = f x) : l'.map g = l.map f := by
  induction h with
  | nil => rfl
  | cons hxy _ ih => rw [List.map_cons, List.map_cons, hR _ _ hxy, ih]

theorem forall₂_takeWhile {p : α → Bool} {q : β → Bool} (h : List.Forall₂ R l l')
    (hR : ∀ x y, R x y → q y = p x) :
    List.Forall₂ R (l.takeWhile p) (l'.takeWhile q) := by
  induction h with
  | nil => exact .nil
  | cons hxy _ ih =>
    rw [List.takeWhile_cons, List.takeWhile_cons, hR _ _ hxy]
    split
    · exact .cons hxy ih
    · exact .nil

theorem getLast?_of_forall₂ (h : List.Forall₂ R l l') : Option.Rel R l.getLast? l'.getLast? := by
  have hrev := List.rel_reverse h
  rw [List.getLast?_eq_head?_reverse, List.getLast?_eq_head?_reverse]
  generalize l.reverse = m, l'.reverse = m' at hrev
  cases hrev with
  | nil => exact .none
  | cons hxy _ => exact .some hxy

end Related

/-! ## Entries that have run out -/

namespace Route

variable {clk : Clock} {r : Route}

theorem refresh_eq_or (clk : Clock) (r : Route) : r.refresh clk = r ∨ r.stale clk = true ∧
    r.refresh clk = r.expire clk := by
  cases h : r.stale clk
  · exact .inl (by simp [refresh, h])
  · exact .inr ⟨rfl, by simp [refresh, h]⟩

@[simp] theorem ptr_refresh : (r.refresh clk).ptr = r.ptr := by unfold refresh; split <;> rfl

@[simp] theorem ip_refresh : (r.refresh clk).ip = r.ip := by unfold refresh; split <;> rfl

@[simp] theorem netmask_refresh : (r.refresh clk).netmask = r.netmask := by
  unfold refresh; split <;> rfl

@[simp] theorem nextHop_refresh : (r.refresh clk).nextHop = r.nextHop := by
  unfold refresh; split <;> rfl

@[simp] theorem metric_refresh : (r.refresh clk).metric = r.metric := by
  unfold refresh; split <;> rfl

@[simp] theorem selfRoute_refresh : (r.refresh clk).selfRoute = r.selfRoute := by
  unfold refresh; split <;> rfl

@[simp] theorem learned_refresh : (r.refresh clk).learned = r.learned := by
  unfold refresh; split <;> rfl

@[simp] theorem compare_refresh (ip : U32) : (r.refresh clk).compare ip = r.compare ip := by
  simp [compare]

theorem refresh_of_self (h : r.selfRoute = true) : r.refresh clk = r := by simp [refresh, stale, h]

@[simp] theorem stale_refresh : (r.refresh clk).stale clk = false := by
  unfold refresh
  split
  · simp [stale, expire]
  · simpa using ‹¬r.stale clk = true›

@[simp] theorem refresh_refresh : (r.refresh clk).refresh clk = r.refresh clk := by
  rw [refresh, stale_refresh]
  rfl

theorem routeValid_of_refresh (h : (r.refresh clk).routeValid = true) : r.refresh clk = r := by
  rcases r.refresh_eq_or clk with h' | ⟨-, h'⟩
  · exact h'
  · rw [h'] at h
    exact Bool.noConfusion h

end Route

/-! ## The search -/

/-- The entry that a search for `ip` returns. -/
def foundRoute (clk : Clock) (ip : U32) (s : Router) : Option Route := (findAodvRoute clk ip s).1

/-- The state after a search for `ip`. -/
def searched (clk : Clock) (ip : U32) (s : Router) : Router := (findAodvRoute clk ip s).2

theorem findAodvRoute_eq (clk : Clock) (ip : U32) (s : Router) :
    findAodvRoute clk ip s = (foundRoute clk ip s, searched clk ip s) := rfl

/-- A table in which some entries that had run out have been marked. -/
def Marked (clk : Clock) : List Route → List Route → Prop :=
  List.Forall₂ fun x y => y = x ∨ y = x.refresh clk

section Search

variable {clk : Clock} {ip : U32} {s : Router}

theorem Marked.refl (l : List Route) : Marked clk l l := List.forall₂_same.2 fun _ _ => .inl rfl

theorem Marked.map_refresh {l l' : List Route} (h : Marked clk l l') :
    l'.map (Route.refresh clk) = l.map (Route.refresh clk) := by
  induction h with
  | nil => rfl
  | cons hxy _ ih =>
    rw [List.map_cons, List.map_cons, ih]
    rcases hxy with rfl | rfl
    · rfl
    · rw [Route.refresh_refresh]

theorem marked_scanRoutes (l : List Route) (possible : Option Route) :
    Marked clk l (scanRoutes clk ip l possible).1 := by
  induction l generalizing possible with
  | nil => exact .nil
  | cons r l ih =>
    rw [scanRoutes]
    split
    · exact .cons (.inr rfl) (ih _)
    · exact Marked.refl _

/-- The entries that a search looks at. -/
def candidates (clk : Clock) (ip : U32) (l : List Route) : List Route :=
  ((l.map (Route.refresh clk)).takeWhile fun r => decide (r.ip ≤ ip)).filter fun r => r.compare ip

theorem candidates_cons {r : Route} (h : r.ip ≤ ip) (l : List Route) :
    candidates clk ip (r :: l) =
      if r.compare ip then r.refresh clk :: candidates clk ip l else candidates clk ip l := by
  have hr : decide ((r.refresh clk).ip ≤ ip) = true := by simpa using h
  rw [candidates, List.map_cons, List.takeWhile_cons, if_pos hr, List.filter_cons,
    Route.compare_refresh]
  rfl

theorem candidates_cons_of_not_le {r : Route} (h : ¬r.ip ≤ ip) (l : List Route) :
    candidates clk ip (r :: l) = [] := by
  have hr : ¬decide ((r.refresh clk).ip ≤ ip) = true := by simpa using h
  rw [candidates, List.map_cons, List.takeWhile_cons, if_neg hr]
  rfl

theorem scanRoutes_found (l : List Route) (possible : Option Route) :
    (scanRoutes clk ip l possible).2 = (candidates clk ip l).getLast?.or possible := by
  induction l generalizing possible with
  | nil => rfl
  | cons r l ih =>
    rw [scanRoutes]
    by_cases hr : r.ip ≤ ip
    · rw [if_pos hr, candidates_cons hr]
      dsimp only
      rw [ih, Route.compare_refresh]
      by_cases hc : r.compare ip = true
      · rw [if_pos hc, if_pos hc, List.getLast?_cons]
        cases (candidates clk ip l).getLast? <;> rfl
      · rw [if_neg hc, if_neg hc]
    · rw [if_neg hr, candidates_cons_of_not_le hr]
      rfl

theorem foundRoute_eq : foundRoute clk ip s = (candidates clk ip s.routes).getLast? :=
  (scanRoutes_found s.routes none).trans (Option.or_none ..)

theorem marked_searched : Marked clk s.routes (searched clk ip s).routes := marked_scanRoutes _ _

/-- A search does not influence a later one. -/
@[simp] theorem foundRoute_searched (ip' : U32) :
    foundRoute clk ip' (searched clk ip s) = foundRoute clk ip' s := by
  rw [foundRoute_eq, foundRoute_eq, candidates, candidates, marked_searched.map_refresh]

/-- A search that is made again marks nothing more. -/
theorem scanRoutes_scanned (l : List Route) (possible possible' : Option Route) :
    (scanRoutes clk ip (scanRoutes clk ip l possible).1 possible').1 =
      (scanRoutes clk ip l possible).1 := by
  induction l generalizing possible possible' with
  | nil => rfl
  | cons r l ih =>
    rw [scanRoutes]
    by_cases hr : r.ip ≤ ip
    · have hr' : (r.refresh clk).ip ≤ ip := by rwa [Route.ip_refresh]
      rw [if_pos hr, scanRoutes, if_pos hr']
      dsimp only
      rw [ih, Route.refresh_refresh]
    · rw [if_neg hr, scanRoutes, if_neg hr]

theorem searched_searched : searched clk ip (searched clk ip s) = searched clk ip s :=
  congrArg (fun l => { s with routes := l }) (scanRoutes_scanned s.routes none none)

/-- The entry that a search for `ip` leads to, as it stands in the table. -/
def entryFor (ip : U32) (s : Router) : Option Route :=
  ((s.routes.takeWhile fun r => decide (r.ip ≤ ip)).filter fun r => r.compare ip).getLast?

theorem foundRoute_entryFor (ip : U32) :
    foundRoute clk ip s = (entryFor ip s).map (Route.refresh clk) := by
  rw [foundRoute_eq, candidates, entryFor, ← List.getLast?_map, List.takeWhile_map, List.filter_map]
  simp only [Function.comp_def, Route.ip_refresh, Route.compare_refresh]

theorem foundRoute_congr {t : Router} (h : t.routes = s.routes) :
    foundRoute clk ip t = foundRoute clk ip s := by rw [foundRoute_eq, foundRoute_eq, h]

theorem mem_of_foundRoute {r : Route} (h : foundRoute clk ip s = some r) :
    r.compare ip = true ∧ ∃ x ∈ s.routes, r = x.refresh clk := by
  rw [foundRoute_eq] at h
  obtain ⟨hmem, hcmp⟩ := List.mem_filter.1 (List.mem_of_getLast? h)
  obtain ⟨x, hx, rfl⟩ := List.mem_map.1 ((List.takeWhile_sublist _).subset hmem)
  exact ⟨hcmp, x, hx, rfl⟩

theorem mem_scanRoutes {r : Route} (l : List Route) (possible : Option Route)
    (h : r ∈ candidates clk ip l) : r ∈ (scanRoutes clk ip l possible).1 := by
  induction l generalizing possible with
  | nil => exact h
  | cons x l ih =>
    rw [scanRoutes]
    by_cases hx : x.ip ≤ ip
    · rw [if_pos hx]
      rw [candidates_cons hx] at h
      have hmem : r = x.refresh clk ∨ r ∈ candidates clk ip l := by
        split at h
        · exact List.mem_cons.1 h
        · exact .inr h
      exact List.mem_cons.2 (hmem.imp_right (ih _))
    · rw [candidates_cons_of_not_le hx] at h
      exact absurd h List.not_mem_nil

/-- The entry found is in the table that the search leaves. -/
theorem mem_searched {r : Route} (h : foundRoute clk ip s = some r) :
    r ∈ (searched clk ip s).routes := by
  rw [foundRoute_eq] at h
  exact mem_scanRoutes _ _ (List.mem_of_getLast? h)

/-- Which entry is found depends on addresses and prefixes alone. -/
theorem ptr_foundRoute {clk' : Clock} {t : Router}
    (h : t.routes.map (fun r => (r.ptr, r.ip, r.netmask)) =
      s.routes.map fun r => (r.ptr, r.ip, r.netmask)) :
    (foundRoute clk' ip t).map Route.ptr = (foundRoute clk ip s).map Route.ptr := by
  have hcand : ∀ clk l, (candidates clk ip l).map Route.ptr =
      (((l.map fun r => (r.ptr, r.ip, r.netmask)).takeWhile fun k => decide (k.2.1 ≤ ip)).filter
        fun k => k.2.1 &&& k.2.2 == ip &&& k.2.2).map Prod.fst := fun clk l => by
    simp only [candidates, List.takeWhile_map, List.filter_map, List.map_map]
    simp [Function.comp_def, Route.compare]
  rw [foundRoute_eq, foundRoute_eq, ← List.getLast?_map, ← List.getLast?_map, hcand, hcand, h]

end Search

end MobileCloudCaching.Aodv
