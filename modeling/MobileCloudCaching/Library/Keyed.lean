import Mathlib.Data.List.Nodup

/-!
# Lists with distinct keys

A list in which no two entries have the same key.  The entry for a key is taken out, and
another one may be put in its place.
-/

namespace Keyed

variable {α κ : Type*} [DecidableEq κ] {key : α → κ} {l : List α} {k : κ} {e x : α}

theorem mem_eraseP_of_ne (h : x ∈ l) (hne : key x ≠ k) : x ∈ l.eraseP fun y => key y == k :=
  (List.mem_eraseP_of_neg (by simpa using hne)).2 h

theorem nodup_eraseP (h : (l.map key).Nodup) : ((l.eraseP fun y => key y == k).map key).Nodup :=
  h.sublist (List.eraseP_sublist.map key)

/-- No entry for the key is left. -/
theorem ne_of_mem_eraseP (h : (l.map key).Nodup) (hx : x ∈ l.eraseP fun y => key y == k) :
    key x ≠ k := by
  induction l with
  | nil => exact absurd hx List.not_mem_nil
  | cons y l ih =>
    obtain ⟨hy, hl⟩ := List.nodup_cons.1 h
    by_cases hk : key y = k
    · rw [List.eraseP_cons_of_pos (by simpa using hk)] at hx
      rintro rfl
      exact hy (hk ▸ List.mem_map_of_mem hx)
    · rw [List.eraseP_cons_of_neg (by simpa using hk)] at hx
      rcases List.mem_cons.1 hx with rfl | hx
      · exact hk
      · exact ih hl hx

theorem nodup_replace (h : (l.map key).Nodup) (he : key e = k) :
    ((e :: l.eraseP fun y => key y == k).map key).Nodup := by
  refine List.nodup_cons.2 ⟨fun hmem => ?_, nodup_eraseP h⟩
  obtain ⟨x, hx, hkey⟩ := List.mem_map.1 hmem
  exact ne_of_mem_eraseP h hx (hkey.trans he)

/-- An entry is the only one for its key. -/
theorem filter_eq_singleton (h : (l.map key).Nodup) (he : e ∈ l) (hk : key e = k) :
    l.filter (fun y => key y == k) = [e] := by
  obtain ⟨l₁, l₂, rfl⟩ := List.append_of_mem he
  have hnone : ∀ x ∈ l₁ ++ l₂, key x ≠ k := by
    rintro x hx rfl
    rw [List.map_append, List.map_cons] at h
    have hnot := (List.nodup_cons.1 (List.perm_middle.nodup_iff.1 h)).1
    rw [← List.map_append] at hnot
    exact hnot (hk ▸ List.mem_map_of_mem hx)
  obtain ⟨h₁, h₂⟩ := List.forall_mem_append.1 hnone
  rw [List.filter_append, List.filter_cons_of_pos (by simpa using hk),
    List.filter_eq_nil_iff.2 (by simpa using h₁), List.filter_eq_nil_iff.2 (by simpa using h₂)]
  rfl

end Keyed
