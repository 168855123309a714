import Enclosure.Path

/-!
This module contains the theory of paths. Reading the components of a path misses no segment that
leads to the parent directory, and finds no other.
-/

namespace Enclosure

theorem split_append_cons (p : α → Bool) (as : List α) {a : α} (h : p a = true) (bs : List α)
    : split p (as ++ a :: bs) = split p as ++ split p bs := by
  induction as with
  | nil => simp [split, h]
  | cons a' as ih =>
    rw [List.cons_append]
    by_cases ha' : p a' = true
    . simp [split, ha', ih]
    . obtain ⟨part, parts, hparts⟩ := List.exists_cons_of_ne_nil (split_ne_nil p as)
      simp [split, ha', ih, hparts]

theorem split_of_forall_not {p : α → Bool} {as : List α} (h : ∀ a ∈ as, p a = false)
    : split p as = [as] := by
  induction as with
  | nil => rfl
  | cons a as ih =>
    rw [List.forall_mem_cons] at h
    simp [split, h.1, ih h.2]

namespace Path

open Component

theorem isAbsolute_iff (path : String) : isAbsolute path ↔ ∃ rest, path = "/" ++ rest := by
  unfold isAbsolute
  rw [decide_eq_true_iff, List.head?_eq_some_iff]
  constructor
  . rintro ⟨cs, h⟩
    refine ⟨String.ofList cs, ?_⟩
    apply String.ext
    simpa using h
  . rintro ⟨rest, rfl⟩
    exact ⟨rest.toList, by simp⟩

theorem segments_append_slash (root rest : String)
    : segments (root ++ "/" ++ rest) = segments root ++ segments rest := by
  unfold segments
  rw [String.toList_append, String.toList_append, List.append_assoc]
  exact split_append_cons _ _ rfl _

theorem names_append_slash (root rest : String)
    : names (root ++ "/" ++ rest) = names root ++ names rest := by
  unfold names
  rw [segments_append_slash, List.filter_append, List.map_append]

end Path

end Enclosure
