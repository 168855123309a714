import Enclosure.ControlGroup.Hierarchy
import Enclosure.Proofs.Lookup
import Enclosure.Proofs.Path

/-!
This module contains the laws of file systems: a call changes nothing but what it is about, whether
it fails or not. File trees and hierarchies of control groups follow them.
-/

namespace Enclosure

def Path.IsName (name : String) : Prop :=
  name.toList ∉ [[], ['.'], ['.', '.']] ∧ '/' ∉ name.toList

instance (name : String) : Decidable (Path.IsName name) :=
  inferInstanceAs (Decidable (_ ∧ _))

/-- A file system whose calls only change what is at the place of their path, or near it. -/
class LawfulFileSystem (σ : Type) [FileSystem σ] where
  Content : Type
  -- What is at a place, if anything is.
  view : σ → List String → Option Content
  place : String → List String
  place_join (base name : String) : Path.IsName name →
    place (Path.join base name) = place base ++ [name]
  makeDirectory_new (path : String) (mode : Nat) (s : σ) :
    (FileSystem.makeDirectory path mode s).1 = .ok () → view s (place path) = none
  makeDirectory_error (path : String) (mode : Nat) (s : σ) (e : IoFault) :
    (FileSystem.makeDirectory path mode s).1 = .error e →
      view (FileSystem.makeDirectory path mode s).2 = view s
  makeDirectory_frame (path : String) (mode : Nat) (s : σ) (q : List String) :
    ¬ place path <+: q → view (FileSystem.makeDirectory path mode s).2 q = view s q
  removeDirectory_frame (path : String) (s : σ) (q : List String) :
    ¬ place path <+: q → view (FileSystem.removeDirectory path s).2 q = view s q
  write_frame (path content : String) (s : σ) (q : List String) :
    ¬ (place path).dropLast <+: q → view (FileSystem.write path content s).2 q = view s q
  read_view (path : String) (s : σ) : view (FileSystem.read path s).2 = view s
  openFile_view (path : String) (s : σ) : view (FileSystem.openFile path s).2 = view s
  openDirectory_view (path : String) (s : σ) : view (FileSystem.openDirectory path s).2 = view s

/-- A file system in which nothing changes when something is looked at. -/
class StableFileSystem (σ : Type) [FileSystem σ] : Prop where
  read (path : String) (s : σ) : (FileSystem.read path s).2 = s
  pathExists (path : String) (s : σ) : (FileSystem.pathExists path s).2 = s
  isDirectory (path : String) (s : σ) : (FileSystem.isDirectory path s).2 = s

namespace FileTree

instance : StableFileSystem FileTree where
  read _ _ := rfl
  pathExists _ _ := rfl
  isDirectory _ _ := rfl

def placeFrom (p : List String) : List (List Char) → List String
  | [] => p
  | s :: rest =>
    if s = ['.'] then placeFrom p rest
    else if s = ['.', '.'] then placeFrom p.dropLast rest
    else placeFrom (p ++ [String.ofList s]) rest

def place (path : String) : List String :=
  placeFrom [] ((Path.segments path).filter (· ≠ []))

theorem path_of_walk {t : FileTree} {path : String} {p : List String} {segments : List (List Char)}
    {l : Place} (h : locate.walk t path p segments = .ok l)
    : l.path = placeFrom p segments := by
  induction segments generalizing p with
  | nil =>
    cases h
    simp [Place.path, placeFrom]
  | cons s rest ih =>
    unfold locate.walk at h
    unfold placeFrom
    split at h
    . next hcurrent =>
      rw [if_pos hcurrent]
      exact ih h
    . next hcurrent =>
      rw [if_neg hcurrent]
      split at h
      . next hparent =>
        rw [if_pos hparent]
        exact ih h
      . next hparent =>
        rw [if_neg hparent]
        dsimp only at h
        split at h
        . contradiction
        . split at h
          . next hlast =>
            cases h
            rw [List.isEmpty_iff.mp hlast]
            simp [Place.path, placeFrom]
          . split at h
            . contradiction
            . contradiction
            . exact ih h

theorem locate_eq_ok_iff {t : FileTree} {path : String} {l : Place}
    : t.locate path = .ok l
        ↔ Path.hasNul path = false ∧ path.isEmpty = false ∧ path.utf8ByteSize ≤ maxPath
          ∧ locate.walk t path [] ((Path.segments path).filter (· ≠ [])) = .ok l := by
  unfold locate
  split
  . next hnul => simp [hnul]
  . next hnul =>
    split
    . next hempty => simp [hempty]
    . next hempty =>
      split
      . next hsize => simp [Nat.not_le.mpr hsize]
      . next hsize => simp [hnul, hempty, Nat.le_of_not_lt hsize]

theorem path_of_locate {t : FileTree} {path : String} {l : Place} (h : t.locate path = .ok l)
    : l.path = place path :=
  path_of_walk (locate_eq_ok_iff.mp h).2.2.2

theorem placeFrom_append (p : List String) (ss rest : List (List Char))
    : placeFrom p (ss ++ rest) = placeFrom (placeFrom p ss) rest := by
  induction ss generalizing p with
  | nil => rfl
  | cons s ss ih =>
    rw [List.cons_append]
    simp only [placeFrom, ih]
    split
    . rfl
    . split
      . rfl
      . rfl

def steps (path : String) : List (List Char) :=
  (Path.segments path).filter (· ≠ [])

theorem steps_append_slash (base rest : String)
    : steps (base ++ "/" ++ rest) = steps base ++ steps rest := by
  unfold steps
  rw [Path.segments_append_slash, List.filter_append]

theorem steps_of_isName {name : String} (h : Path.IsName name) : steps name = [name.toList] := by
  have hnone : ∀ c ∈ name.toList, decide (c = '/') = false := by
    intro c hc
    rw [decide_eq_false_iff_not]
    rintro rfl
    exact h.2 hc
  have hempty : name.toList ≠ [] := fun hempty => h.1 (by simp [hempty])
  unfold steps Path.segments
  rw [split_of_forall_not hnone]
  simp [hempty]

theorem steps_join {name : String} (base : String) (h : Path.IsName name)
    : steps (Path.join base name) = steps base ++ [name.toList] := by
  rw [← steps_of_isName h]
  unfold Path.join
  split
  . next htail =>
    rw [Bool.or_eq_true] at htail
    cases htail with
    | inl habsolute =>
      obtain ⟨rest, hrest⟩ := (Path.isAbsolute_iff name).mp habsolute
      exact absurd (by simp [hrest]) h.2
    | inr hempty =>
      rw [String.isEmpty_iff.mp hempty]
      rfl
  . split
    . next hslash =>
      obtain ⟨cs, hcs⟩ := List.getLast?_eq_some_iff.mp hslash
      have hbase : base = String.ofList cs ++ "/" := by
        apply String.toList_inj.mp
        simpa using hcs
      have hsteps : steps base = steps (String.ofList cs) ++ steps "" := by
        rw [← steps_append_slash, hbase]
        simp
      rw [hsteps, hbase, steps_append_slash]
      simp [show steps "" = [] from rfl]
    . rw [steps_append_slash]

theorem place_join {name : String} (base : String) (h : Path.IsName name)
    : place (Path.join base name) = place base ++ [name] := by
  have hcurrent : name.toList ≠ ['.'] := fun hcurrent => h.1 (by simp [hcurrent])
  have hparent : name.toList ≠ ['.', '.'] := fun hparent => h.1 (by simp [hparent])
  change placeFrom [] (steps _) = placeFrom [] (steps _) ++ _
  rw [steps_join base h, placeFrom_append]
  simp [placeFrom, hcurrent, hparent]

theorem get?_put_of_ne (t : FileTree) {p q : List String} (h : q ≠ p) (e : Entry)
    : (t.put p e).get? q = t.get? q := by
  have hne : (q == p) = false := by simpa using h
  unfold get? put
  split
  . rfl
  . split
    . rw [lookup_map fun key old => if key = p then e else old]
      simp [h]
    . rw [List.lookup_append]
      simp [List.lookup_cons, hne]

theorem get?_filter (t : FileTree) {keep : List String × Entry → Bool} {q : List String}
    (h : ∀ e, keep (q, e))
    : get? ⟨t.entries.filter keep⟩ q = t.get? q := by
  unfold get?
  rw [lookup_filter h]

theorem of_makeDirectory {t t' : FileTree} {path : String} {mode : Nat}
    (h : t.makeDirectory path mode = .ok t')
    : t.get? (place path) = none ∧ ∃ e, t' = t.put (place path) e := by
  unfold makeDirectory at h
  cases hlocate : t.locate path with
  | error e =>
    rw [hlocate] at h
    contradiction
  | ok l =>
    rw [hlocate] at h
    dsimp only [bind, Except.bind] at h
    split at h
    . contradiction
    . next hnone =>
      cases h
      rw [← path_of_locate hlocate]
      exact ⟨by simpa using hnone, _, rfl⟩

theorem of_writeFile {t t' : FileTree} {path content : String}
    (h : t.writeFile path content = .ok t')
    : ∃ e, t' = t.put (place path) e := by
  unfold writeFile at h
  cases hlocate : t.locate path with
  | error e =>
    rw [hlocate] at h
    contradiction
  | ok l =>
    rw [hlocate] at h
    dsimp only [bind, Except.bind] at h
    rw [← path_of_locate hlocate]
    split at h
    . contradiction
    . split at h
      . contradiction
      . cases h
        exact ⟨_, rfl⟩
      . cases h
        exact ⟨_, rfl⟩

theorem place_of_find {t : FileTree} {path : String} {l : Place} {e : Entry}
    (h : t.find path = .ok (l, e))
    : l.path = place path := by
  unfold find at h
  cases hlocate : t.locate path with
  | error e =>
    rw [hlocate] at h
    contradiction
  | ok l' =>
    rw [hlocate] at h
    dsimp only [bind, Except.bind] at h
    split at h
    . contradiction
    . split at h
      . contradiction
      . cases h
        exact path_of_locate hlocate

theorem of_removeDirectory {t t' : FileTree} {path : String} (h : t.removeDirectory path = .ok t')
    : t' = t.erase (place path) := by
  unfold removeDirectory at h
  cases hfind : t.find path with
  | error e =>
    rw [hfind] at h
    contradiction
  | ok found =>
    rw [hfind] at h
    dsimp only [bind, Except.bind] at h
    rw [← place_of_find hfind]
    split at h
    . contradiction
    . split at h
      . contradiction
      . split at h
        . contradiction
        . cases h
          rfl

theorem of_removeGroup {t t' : FileTree} {path : String} (h : t.removeGroup path = .ok t')
    : t' = ⟨t.entries.filter fun (q, _) => !(place path).isPrefixOf q⟩ := by
  unfold removeGroup at h
  cases hfind : t.find path with
  | error e =>
    rw [hfind] at h
    contradiction
  | ok found =>
    rw [hfind] at h
    dsimp only [bind, Except.bind] at h
    rw [← place_of_find hfind]
    split at h
    . contradiction
    . split at h
      . contradiction
      . split at h
        . contradiction
        . cases h
          rfl

theorem change_error {f : FileTree → Except IoFault FileTree} {t : FileTree} {e : IoFault}
    (h : (change f t).1 = .error e)
    : (change f t).2 = t := by
  unfold change at *
  split at h
  . contradiction
  . rfl

theorem change_frame {f : FileTree → Except IoFault FileTree} {t : FileTree} {q : List String}
    (h : ∀ t', f t = .ok t' → t'.get? q = t.get? q)
    : (change f t).2.get? q = t.get? q := by
  unfold change
  split
  . next t' hok => exact h t' hok
  . rfl

instance : LawfulFileSystem FileTree where
  Content := Entry
  view := get?
  place := place
  place_join base _ h := place_join base h
  makeDirectory_new path mode t h := by
    unfold FileSystem.makeDirectory instFileSystem change at h
    dsimp only at h
    split at h
    . next hok => exact (of_makeDirectory hok).1
    . contradiction
  makeDirectory_error path mode t e h := by
    have hsame : (FileSystem.makeDirectory path mode t).2 = t := change_error h
    rw [hsame]
  makeDirectory_frame path mode t q h := by
    apply change_frame
    intro t' hok
    obtain ⟨-, e, rfl⟩ := of_makeDirectory hok
    apply get?_put_of_ne
    rintro rfl
    exact h List.prefix_rfl
  removeDirectory_frame path t q h := by
    apply change_frame
    intro t' hok
    rw [of_removeDirectory hok]
    apply get?_filter
    intro e
    simp only [ne_eq, decide_not, Bool.not_eq_true', decide_eq_false_iff_not]
    rintro rfl
    exact h List.prefix_rfl
  write_frame path content t q h := by
    apply change_frame
    intro t' hok
    obtain ⟨e, rfl⟩ := of_writeFile hok
    apply get?_put_of_ne
    rintro rfl
    exact h (List.dropLast_prefix _)
  read_view _ _ := rfl
  openFile_view _ _ := rfl
  openDirectory_view _ _ := rfl

end FileTree

namespace Hierarchy

variable {h : Hierarchy} {q : List String}

theorem attempt_cases (a : StateM FileTree (Except IoFault α)) (h : Hierarchy)
    : (∃ e, (attempt a h).1 = .error e ∧ (attempt a h).2.files = h.files)
        ∨ (attempt a h).1 = (a h.files).1 ∧ (attempt a h).2.files = (a h.files).2 := by
  unfold attempt
  split
  . exact .inl ⟨_, rfl, rfl⟩
  . exact .inr ⟨rfl, rfl⟩

theorem attempt_frame {a : StateM FileTree (Except IoFault α)}
    (hframe : (a h.files).2.get? q = h.files.get? q)
    : (attempt a h).2.files.get? q = h.files.get? q := by
  cases attempt_cases a h with
  | inl hfault =>
    obtain ⟨_, _, hfiles⟩ := hfault
    rw [hfiles]
  | inr hcall => rw [hcall.2, hframe]

instance : LawfulFileSystem Hierarchy where
  Content := Entry
  view h := h.files.get?
  place := FileTree.place
  place_join base _ h := FileTree.place_join base h
  makeDirectory_new path mode h hok := by
    cases attempt_cases (FileSystem.makeDirectory path mode) h with
    | inl hfault =>
      obtain ⟨_, hfault, -⟩ := hfault
      cases hfault.symm.trans hok
    | inr hcall =>
      exact LawfulFileSystem.makeDirectory_new path mode h.files (hcall.1.symm.trans hok)
  makeDirectory_error path mode h e herror := by
    cases attempt_cases (FileSystem.makeDirectory path mode) h with
    | inl hfault =>
      obtain ⟨_, -, hfiles⟩ := hfault
      exact congrArg FileTree.get? hfiles
    | inr hcall =>
      refine (congrArg FileTree.get? hcall.2).trans ?_
      exact LawfulFileSystem.makeDirectory_error path mode h.files e (hcall.1.symm.trans herror)
  makeDirectory_frame path mode h q hq :=
    attempt_frame (LawfulFileSystem.makeDirectory_frame path mode h.files q hq)
  removeDirectory_frame path h q hq := by
    apply attempt_frame
    apply FileTree.change_frame
    intro t' hok
    rw [FileTree.of_removeGroup hok]
    apply FileTree.get?_filter
    intro e
    rw [Bool.not_eq_true', ← Bool.not_eq_true, List.isPrefixOf_iff_prefix]
    exact hq
  write_frame path content h q hq :=
    attempt_frame (LawfulFileSystem.write_frame path content h.files q hq)
  read_view path h := by
    funext q
    apply attempt_frame
    rfl
  openFile_view path h := by
    funext q
    apply attempt_frame
    rfl
  openDirectory_view path h := by
    funext q
    apply attempt_frame
    rfl

end Hierarchy

end Enclosure
