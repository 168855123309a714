import Enclosure.Proofs.FileTree.Walk

/-!
This module contains the theory of what is created in a file tree: where that can be done, and that
nothing changes of what was there before.
-/

namespace Enclosure

namespace FileTree

variable {t t' : FileTree} {p q : List String} {path : String}

def Extends (t t' : FileTree) : Prop :=
  ∀ q e, t.get? q = some e → t'.get? q = some e

theorem Extends.refl (t : FileTree) : Extends t t := fun _ _ h => h

theorem Extends.trans {t'' : FileTree} (h : Extends t t') (h' : Extends t' t'') : Extends t t'' :=
  fun q e he => h' q e (h q e he)

theorem extends_append (t : FileTree) (entries : List (List String × Entry))
    : Extends t ⟨t.entries ++ entries⟩ := by
  intro q e h
  unfold get? at *
  by_cases hq : q = []
  . rwa [if_pos hq] at *
  . rw [if_neg hq] at *
    rw [List.lookup_append, h, Option.some_or]

theorem step_of_extends (h : Extends t t') {s : List Char} (hok : t.step p s = .ok q)
    : t'.step p s = .ok q := by
  unfold step at *
  split
  . next hcurrent => rwa [if_pos hcurrent] at hok
  . next hcurrent =>
    rw [if_neg hcurrent] at hok
    split
    . next hparent => rwa [if_pos hparent] at hok
    . next hparent =>
      rw [if_neg hparent] at hok
      split
      . next hsize =>
        rw [if_pos hsize] at hok
        contradiction
      . next hsize =>
        rw [if_neg hsize] at hok
        split at hok
        . contradiction
        . contradiction
        . next hentry =>
          rw [h _ _ hentry]
          exact hok

theorem walk_of_extends (h : Extends t t') {ss : List (List Char)} {l : Place}
    (hok : locate.walk t path p ss = .ok l)
    : locate.walk t' path p ss = .ok l := by
  induction ss generalizing p with
  | nil => exact hok
  | cons s ss ih =>
    by_cases hlast : ss = []
    . rw [hlast] at hok ⊢
      unfold locate.walk at *
      exact hok
    . rw [walk_cons _ _ _ _ hlast] at hok ⊢
      cases hstep : t.step p s with
      | error e =>
        rw [hstep] at hok
        contradiction
      | ok q =>
        rw [hstep] at hok
        rw [step_of_extends h hstep]
        exact ih hok

theorem locate_of_extends (h : Extends t t') {l : Place} (hok : t.locate path = .ok l)
    : t'.locate path = .ok l := by
  rw [locate_eq_ok_iff] at *
  obtain ⟨hnul, hempty, hsize, hwalk⟩ := hok
  exact ⟨hnul, hempty, hsize, walk_of_extends h hwalk⟩

theorem find_of_extends (h : Extends t t') {l : Place} {e : Entry} (hok : t.find path = .ok (l, e))
    : t'.find path = .ok (l, e) := by
  unfold find at *
  cases hlocate : t.locate path with
  | error e =>
    rw [hlocate] at hok
    contradiction
  | ok l' =>
    rw [hlocate] at hok
    rw [locate_of_extends h hlocate]
    dsimp only [bind, Except.bind] at *
    cases hentry : t.get? l'.path with
    | none =>
      rw [hentry] at hok
      contradiction
    | some e' =>
      rw [hentry] at hok
      rw [h _ _ hentry]
      exact hok

theorem put_of_none (h : t.get? p = none) (e : Entry) : t.put p e = ⟨t.entries ++ [(p, e)]⟩ := by
  have hne : p ≠ [] := by
    rintro rfl
    cases h
  unfold get? at h
  rw [if_neg hne, List.lookup_eq_none_iff] at h
  unfold put
  rw [if_neg]
  rw [List.any_eq_true]
  rintro ⟨entry, hentry, heq⟩
  have hother := h entry hentry
  simp at heq hother
  exact hother heq.symm

theorem isDirectory_of_step (hp : ∀ r, r <+: p → t.isDirectory r) {s : List Char}
    (h : t.step p s = .ok q)
    : ∀ r, r <+: q → t.isDirectory r := by
  unfold step at h
  split at h
  . cases h
    exact hp
  . split at h
    . cases h
      exact fun r hr => hp r (hr.trans (List.dropLast_prefix p))
    . split at h
      . contradiction
      . split at h
        . contradiction
        . contradiction
        . next hentry =>
          cases h
          intro r hr
          rw [List.prefix_concat_iff] at hr
          cases hr with
          | inl heq =>
            rw [heq]
            unfold isDirectory
            rw [hentry]
            rfl
          | inr hr => exact hp r hr

theorem step_of_isDirectory {s : List Char} (hsize : (String.ofList s).utf8ByteSize ≤ maxName)
    (h : t.isDirectory (placeFrom p [s]))
    : t.step p s = .ok (placeFrom p [s]) := by
  unfold step
  simp only [placeFrom] at *
  split
  . rfl
  . next hcurrent =>
    rw [if_neg hcurrent] at h
    split
    . rfl
    . next hparent =>
      rw [if_neg hparent] at h
      obtain ⟨mode, hentry⟩ := isDirectory_iff.mp h
      rw [if_neg (Nat.not_lt.mpr hsize), hentry]

theorem size_of_step {s : List Char} (h : t.step p s = .ok q)
    : (String.ofList s).utf8ByteSize ≤ maxName := by
  unfold step at h
  split at h
  . next hcurrent =>
    rw [hcurrent]
    decide
  . split at h
    . next hparent =>
      rw [hparent]
      decide
    . split at h
      . contradiction
      . next hsize => exact Nat.le_of_not_lt hsize

theorem walk_singleton_ok_iff {s : List Char}
    : (∃ l, locate.walk t path p [s] = .ok l) ↔ (String.ofList s).utf8ByteSize ≤ maxName := by
  unfold locate.walk
  split
  . next hcurrent =>
    rw [hcurrent]
    exact iff_of_true ⟨_, rfl⟩ (by decide)
  . split
    . next hparent =>
      rw [hparent]
      exact iff_of_true ⟨_, rfl⟩ (by decide)
    . dsimp only
      split
      . next hsize =>
        refine iff_of_false ?_ (Nat.not_le.mpr hsize)
        rintro ⟨l, hl⟩
        contradiction
      . next hsize => exact iff_of_true ⟨_, rfl⟩ (Nat.le_of_not_lt hsize)

theorem forall_front_cons {P : List α → Prop} {a : α} {l : List α}
    : (∀ front back, a :: l = front ++ back → back ≠ [] → P front)
        ↔ P [] ∧ ∀ front back, l = front ++ back → back ≠ [] → P (a :: front) := by
  constructor
  . intro h
    refine ⟨h [] (a :: l) rfl (by simp), fun front back heq hback => ?_⟩
    exact h (a :: front) back (by rw [heq]; rfl) hback
  . rintro ⟨hnil, hcons⟩ front back heq hback
    cases front with
    | nil => exact hnil
    | cons a' front =>
      rw [List.cons_append, List.cons.injEq] at heq
      rw [← heq.1]
      exact hcons front back heq.2 hback

theorem walk_ok_iff (hp : ∀ r, r <+: p → t.isDirectory r) {ss : List (List Char)}
    : (∃ l, locate.walk t path p ss = .ok l)
        ↔ (∀ s ∈ ss, (String.ofList s).utf8ByteSize ≤ maxName)
          ∧ ∀ front back, ss = front ++ back → back ≠ [] → t.isDirectory (placeFrom p front) := by
  induction ss generalizing p with
  | nil => simp [locate.walk]
  | cons s ss ih =>
    obtain ⟨q, hq⟩ : ∃ q, q = placeFrom p [s] := ⟨_, rfl⟩
    have hplace (front : List (List Char)) : placeFrom p (s :: front) = placeFrom q front := by
      rw [hq, ← placeFrom_append, List.singleton_append]
    have hdirectory : t.isDirectory (placeFrom p []) := hp p (List.prefix_refl p)
    rw [List.forall_mem_cons, forall_front_cons]
    simp only [hplace, hdirectory, true_and]
    by_cases hlast : ss = []
    . rw [hlast, walk_singleton_ok_iff]
      simp
    . rw [walk_cons _ _ _ _ hlast]
      constructor
      . rintro ⟨l, hl⟩
        cases hstep : t.step p s with
        | error e =>
          rw [hstep] at hl
          contradiction
        | ok r =>
          rw [hstep] at hl
          obtain ⟨hsizes, hfronts⟩ := (ih (isDirectory_of_step hp hstep)).mp ⟨l, hl⟩
          rw [step_ok hstep, ← hq] at hfronts
          exact ⟨⟨size_of_step hstep, hsizes⟩, hfronts⟩
      . rintro ⟨⟨hsize, hsizes⟩, hfronts⟩
        have hfirst : t.isDirectory (placeFrom p [s]) := by
          rw [← hq]
          exact hfronts [] ss rfl hlast
        have hstep := step_of_isDirectory hsize hfirst
        rw [hstep, ← hq]
        rw [← hq] at hstep
        exact (ih (isDirectory_of_step hp hstep)).mpr ⟨hsizes, hfronts⟩

-- Where something can be created: the path leads through directories, and to nothing yet.
structure IsFree (t : FileTree) (path : String) : Prop where
  noNul : Path.hasNul path = false
  size : path.utf8ByteSize ≤ maxPath
  names : ∀ s ∈ steps path, (String.ofList s).utf8ByteSize ≤ maxName
  parents : ∀ front back, steps path = front ++ back → back ≠ [] →
    t.isDirectory (placeFrom [] front)
  nothing : t.get? (place path) = none

theorem isFree_iff : t.IsFree path ↔ ∃ l, t.locate path = .ok l ∧ t.get? l.path = none := by
  have hwalk : (∃ l, locate.walk t path [] (steps path) = .ok l) ↔ _ :=
    walk_ok_iff fun r hr => by
      rw [List.prefix_nil.mp hr]
      rfl
  constructor
  . intro h
    obtain ⟨l, hl⟩ := hwalk.mpr ⟨h.names, h.parents⟩
    have hempty : path.isEmpty = false := by
      rw [← Bool.not_eq_true, String.isEmpty_iff]
      rintro rfl
      have hplace : place "" = [] := by rfl
      have hnothing := h.nothing
      rw [hplace] at hnothing
      contradiction
    have hlocate : t.locate path = .ok l := locate_eq_ok_iff.mpr ⟨h.noNul, hempty, h.size, hl⟩
    exact ⟨l, hlocate, by rw [path_of_locate hlocate]; exact h.nothing⟩
  . rintro ⟨l, hl, hnothing⟩
    rw [path_of_locate hl] at hnothing
    obtain ⟨hnul, -, hsize, hl⟩ := locate_eq_ok_iff.mp hl
    obtain ⟨hnames, hparents⟩ := hwalk.mp ⟨l, hl⟩
    exact ⟨hnul, hsize, hnames, hparents, hnothing⟩

theorem makeDirectory_eq_ok_iff {mode : Nat}
    : t.makeDirectory path mode = .ok t'
        ↔ t.IsFree path
          ∧ t' = ⟨t.entries ++ [(place path, .directory (createdMode 0o1777 mode))]⟩ := by
  rw [isFree_iff]
  unfold makeDirectory
  cases hlocate : t.locate path with
  | error e => exact iff_of_false nofun (by simp)
  | ok l =>
    rw [← path_of_locate hlocate]
    cases hentry : t.get? l.path with
    | none =>
      rw [← put_of_none hentry]
      simp [bind, Except.bind, pure, Except.pure, hentry, eq_comm]
    | some e =>
      simp [bind, Except.bind, throw, throwThe, MonadExceptOf.throw, hentry]

theorem walk_sound (hp : ∀ r, r <+: p → t.isDirectory r) {ss : List (List Char)} {l : Place}
    (h : locate.walk t path p ss = .ok l)
    : t.isDirectory l.directory ∧ l.trailingSlash = locate.trailingSlash path := by
  induction ss generalizing p with
  | nil =>
    cases h
    exact ⟨hp p (List.prefix_refl p), rfl⟩
  | cons s ss ih =>
    by_cases hlast : ss = []
    . rw [hlast] at h ih
      unfold locate.walk at h
      split at h
      . exact ih hp h
      . split at h
        . exact ih (fun r hr => hp r (hr.trans (List.dropLast_prefix p))) h
        . dsimp only at h
          split at h
          . contradiction
          . cases h
            exact ⟨hp p (List.prefix_refl p), rfl⟩
    . rw [walk_cons _ _ _ _ hlast] at h
      cases hstep : t.step p s with
      | error e =>
        rw [hstep] at h
        contradiction
      | ok q =>
        rw [hstep] at h
        exact ih (isDirectory_of_step hp hstep) h

theorem locate_sound {l : Place} (h : t.locate path = .ok l)
    : t.isDirectory l.directory ∧ (l.trailingSlash ↔ path.toList.getLast? = some '/') := by
  obtain ⟨-, -, -, hwalk⟩ := locate_eq_ok_iff.mp h
  obtain ⟨hdirectory, hslash⟩ :=
    walk_sound (fun r hr => by rw [List.prefix_nil.mp hr]; rfl) hwalk
  rw [hslash]
  exact ⟨hdirectory, by simp [locate.trailingSlash]⟩

theorem createFile_eq_ok_iff {mode : Nat}
    : t.createFile path mode = .ok t'
        ↔ t.IsFree path ∧ path.toList.getLast? ≠ some '/'
          ∧ t' = ⟨t.entries ++ [(place path, .file (createdMode 0o7777 mode) "")]⟩ := by
  rw [isFree_iff]
  unfold createFile
  cases hlocate : t.locate path with
  | error e => exact iff_of_false nofun (by simp)
  | ok l =>
    obtain ⟨hdirectory, hslash⟩ := locate_sound hlocate
    rw [← path_of_locate hlocate, Ne, ← hslash]
    cases hentry : t.get? l.path with
    | none =>
      have hname : l.name.isSome := by
        rw [Option.isSome_iff_ne_none]
        intro hnone
        unfold Place.path at hentry
        rw [hnone, Option.toList_none, List.append_nil] at hentry
        unfold isDirectory at hdirectory
        rw [hentry] at hdirectory
        contradiction
      rw [← put_of_none hentry]
      cases hlast : l.trailingSlash with
      | true => simp [bind, Except.bind, throw, throwThe, MonadExceptOf.throw, hlast, hname]
      | false => simp [bind, Except.bind, pure, Except.pure, hentry, hlast, eq_comm]
    | some e =>
      cases hcase : l.trailingSlash && l.name.isSome with
      | true => simp [bind, Except.bind, throw, throwThe, MonadExceptOf.throw, hentry, hcase]
      | false => simp [bind, Except.bind, throw, throwThe, MonadExceptOf.throw, hentry, hcase]

theorem change_of_ok {f : FileTree → Except IoFault FileTree} (h : f t = .ok t')
    : change f t = (.ok (), t') := by
  unfold change
  rw [h]

theorem change_of_error {f : FileTree → Except IoFault FileTree} {e : IoFault}
    (h : f t = .error e)
    : change f t = (.error e, t) := by
  unfold change
  rw [h]

theorem makeDirectory_apply (path : String) (mode : Nat) (t : FileTree)
    : FileSystem.makeDirectory path mode t = change (·.makeDirectory path mode) t := rfl

theorem createFile_apply (path : String) (mode : Nat) (t : FileTree)
    : FileSystem.createFile path mode t = change (·.createFile path mode) t := rfl

end FileTree

end Enclosure
