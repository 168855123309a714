import Enclosure.Proofs.FileTree.Walk

/-!
This module contains the theory of the clearing of a directory of a file tree: which directories in
it can be removed, what is left without them, and that the order of the entries does not matter.
-/

namespace Enclosure

namespace FileTree

variable {t u : FileTree} {base name : String} {gone : List String → Bool} {names q : List String}

def isRemovable (t : FileTree) (base name : String) : Bool :=
  t.isDirectory (place base ++ [name]) && (t.names (place base ++ [name])).isEmpty
    && decide ((Path.join base name).utf8ByteSize ≤ maxPath)

def isHeld (t : FileTree) (base name : String) : Bool :=
  t.isDirectory (place base ++ [name]) && !t.isRemovable base name

theorem isHeld_iff : t.isHeld base name ↔
    t.isDirectory (place base ++ [name]) ∧ t.isRemovable base name = false := by
  unfold isHeld
  rw [Bool.and_eq_true, Bool.not_eq_true']

theorem mem_names_of_isRemovable (h : t.isRemovable base name) : name ∈ t.names (place base) := by
  unfold isRemovable at h
  rw [Bool.and_eq_true, Bool.and_eq_true] at h
  obtain ⟨mode, hmode⟩ := isDirectory_iff.mp h.1.1
  exact mem_names_of_get? hmode

structure Spares (gone : List String → Bool) (base name : String) : Prop where
  here : gone (place base ++ [name]) = false
  below (child : String) : gone (place base ++ [name] ++ [child]) = false

theorem Spares.isRemovable (h : Spares gone base name)
    : (t.without gone).isRemovable base name = t.isRemovable base name := by
  unfold FileTree.isRemovable
  rw [isDirectory_without h.here, names_without_of_not h.below]

theorem Spares.or {other : String} (h : Spares gone base name)
    (hother : name ≠ other)
    : Spares (fun q => gone q || decide (q = place base ++ [other])) base name := by
  constructor
  . simpa [h.here] using hother
  . intro child
    rw [h.below, Bool.false_or, decide_eq_false_iff_not]
    intro heq
    simpa using congrArg List.length heq

def goes (t : FileTree) (base : String) (names : List String) (q : List String) : Bool :=
  names.any fun name => q = place base ++ [name] && t.isRemovable base name

theorem goes_cons
    : t.goes base (name :: names)
        = fun q =>
            (decide (q = place base ++ [name]) && t.isRemovable base name)
              || t.goes base names q := by
  funext q
  unfold goes
  rw [List.any_cons]

theorem goes_eq_true_iff
    : t.goes base names q ↔ ∃ name ∈ names, q = place base ++ [name] ∧ t.isRemovable base name := by
  unfold goes
  simp

theorem goes_child (h : name ∈ names)
    : t.goes base names (place base ++ [name]) = t.isRemovable base name := by
  rw [Bool.eq_iff_iff, goes_eq_true_iff]
  constructor
  . rintro ⟨other, -, heq, hremovable⟩
    obtain rfl : name = other := by simpa using heq
    exact hremovable
  . exact fun hremovable => ⟨name, h, rfl, hremovable⟩

def vanishes (t : FileTree) (base : String) (q : List String) : Bool :=
  t.goes base (t.names (place base)) q
    || (decide (q = place base) && (t.names (place base)).all (t.isRemovable base))

theorem vanishes_iff
    : t.vanishes base q ↔
        (∃ name, q = place base ++ [name] ∧ t.isRemovable base name)
          ∨ q = place base ∧ ∀ name ∈ t.names (place base), t.isRemovable base name := by
  unfold vanishes
  rw [Bool.or_eq_true, goes_eq_true_iff, Bool.and_eq_true, decide_eq_true_iff, List.all_eq_true]
  apply or_congr_left
  constructor
  . rintro ⟨name, -, h⟩
    exact ⟨name, h⟩
  . rintro ⟨name, rfl, h⟩
    exact ⟨name, mem_names_of_isRemovable h, rfl, h⟩

theorem vanishes_child : t.vanishes base (place base ++ [name]) = t.isRemovable base name := by
  rw [Bool.eq_iff_iff, vanishes_iff]
  simp

theorem vanishes_base
    : t.vanishes base (place base) ↔ ∀ name ∈ t.names (place base), t.isRemovable base name := by
  rw [vanishes_iff]
  simp

theorem isRemovable_vanished : (t.without (t.vanishes base)).isRemovable base name = false := by
  rw [Bool.eq_false_iff]
  intro h
  have hkept : t.vanishes base (place base ++ [name]) = false := by
    have hname := mem_names_of_isRemovable h
    rw [names_without, List.mem_filter] at hname
    simpa using hname.2
  -- Nothing vanishes that is deeper than an entry, so what is left is not emptier than it was.
  have hspares : Spares (t.vanishes base) base name := by
    refine ⟨hkept, fun child => ?_⟩
    rw [Bool.eq_false_iff, Ne, vanishes_iff]
    simp
  rw [hspares.isRemovable, ← vanishes_child, hkept] at h
  contradiction

theorem vanishes_vanished (h : ¬ t.vanishes base (place base)) (q : List String)
    : (t.without (t.vanishes base)).vanishes base q = false := by
  rw [Bool.eq_false_iff, Ne, vanishes_iff]
  simp only [isRemovable_vanished, Bool.false_eq_true, and_false, exists_false, false_or, not_and]
  rintro - hnames
  apply h
  rw [vanishes_base]
  intro name hname
  cases hkept : t.isRemovable base name with
  | true => rfl
  | false =>
    exfalso
    apply hnames name
    rw [names_without, List.mem_filter, vanishes_child, hkept]
    exact ⟨hname, rfl⟩

theorem isRemovable_of_perm (h : u.entries.Perm t.entries) (hvalid : t.WellFormed)
    (base name : String)
    : u.isRemovable base name = t.isRemovable base name := by
  unfold isRemovable isDirectory
  rw [get?_of_perm h hvalid, (names_of_perm h _).isEmpty_eq]

theorem vanishes_of_perm (h : u.entries.Perm t.entries) (hvalid : t.WellFormed)
    (base : String)
    : u.vanishes base = t.vanishes base := by
  funext q
  rw [Bool.eq_iff_iff, vanishes_iff, vanishes_iff]
  simp only [isRemovable_of_perm h hvalid, (names_of_perm h _).mem_iff]

-- The way to `base` is through no directory that is removed.
def WayKept (t : FileTree) (root base : String) : Prop :=
  ∀ name, t.isRemovable base name → ¬ LeadsThrough root (place base ++ [name])

theorem WayKept.of_steps {root dir : String} (hlegal : IsLegal dir) (h : ['.', '.'] ∉ steps root)
    : t.WayKept root (Path.join root dir) := by
  intro name _ hleads
  have hprefix := (prefix_of_leadsThrough h hleads).length_le
  simp only [place_join root hlegal.1, List.length_append, List.length_singleton] at hprefix
  omega

end FileTree

end Enclosure
