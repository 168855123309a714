/-!
This module contains lists of keys with values, in which the first value of a key counts.
-/

namespace Enclosure

variable {κ α β : Type} [BEq κ] [LawfulBEq κ] {key : κ}

theorem lookup_filter {p : κ × α → Bool} (h : ∀ value, p (key, value)) (entries : List (κ × α))
    : (entries.filter p).lookup key = entries.lookup key := by
  induction entries with
  | nil => rfl
  | cons entry entries ih =>
    obtain ⟨key', value⟩ := entry
    by_cases hkey : key == key'
    . have hentry : p (key', value) := by
        rw [eq_of_beq hkey] at h
        exact h value
      rw [List.filter_cons_of_pos hentry]
      simp only [List.lookup_cons, hkey]
    . have hne : (key == key') = false := by simpa using hkey
      by_cases hentry : p (key', value)
      . rw [List.filter_cons_of_pos hentry]
        simp only [List.lookup_cons, hne, ih]
      . rw [List.filter_cons_of_neg hentry, ih]
        simp only [List.lookup_cons, hne]

theorem lookup_map (f : κ → α → β) (entries : List (κ × α)) (key : κ)
    : (entries.map fun entry => (entry.1, f entry.1 entry.2)).lookup key
        =
      (entries.lookup key).map (f key) := by
  induction entries with
  | nil => rfl
  | cons entry entries ih =>
    obtain ⟨key', value⟩ := entry
    simp only [List.map_cons, List.lookup_cons]
    split
    . next hkey => rw [eq_of_beq hkey, Option.map_some]
    . exact ih

theorem lookup_of_perm {entries entries' : List (κ × α)} (h : entries.Perm entries')
    (hnodup : (entries.map Prod.fst).Nodup) (key : κ)
    : entries.lookup key = entries'.lookup key := by
  induction h with
  | nil => rfl
  | cons entry _ ih =>
    obtain ⟨key', value⟩ := entry
    rw [List.map_cons, List.nodup_cons] at hnodup
    simp only [List.lookup_cons, ih hnodup.2]
  | swap entry entry' entries =>
    obtain ⟨⟨key₁, value₁⟩, ⟨key₂, value₂⟩⟩ := entry, entry'
    have hne : key₂ ≠ key₁ := by
      simp at hnodup
      exact hnodup.1.1
    simp only [List.lookup_cons]
    split
    . next hkey =>
      have hne' : (key == key₁) = false := by simpa [eq_of_beq hkey] using hne
      rw [hne']
    . rfl
  | trans h _ ih ih' =>
    rw [ih hnodup, ih' ((h.map Prod.fst).nodup hnodup)]

end Enclosure
