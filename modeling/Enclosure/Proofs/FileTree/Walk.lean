import Enclosure.Proofs.FileTree

/-!
This module contains the theory of the ways through a file tree: the directories that a path leads
through, and what taking entries away changes of where it leads.
-/

namespace Enclosure

namespace FileTree

variable {t t' : FileTree} {p q : List String} {name : String} {gone : List String → Bool}

def step (t : FileTree) (p : List String) (s : List Char) : Except IoFault (List String) :=
  if s = ['.'] then .ok p
  else if s = ['.', '.'] then .ok p.dropLast
  else if (String.ofList s).utf8ByteSize > maxName then .error (.system .nameTooLong)
  else match t.get? (p ++ [String.ofList s]) with
    | none => .error (.system .noEntry)
    | some (.file ..) => .error (.system .notDirectory)
    | some (.directory _) => .ok (p ++ [String.ofList s])

theorem step_ok {s : List Char} (h : t.step p s = .ok q) : q = placeFrom p [s] := by
  unfold step at h
  simp only [placeFrom]
  split at h
  . next hcurrent =>
    cases h
    rw [if_pos hcurrent]
  . next hcurrent =>
    rw [if_neg hcurrent]
    split at h
    . next hparent =>
      cases h
      rw [if_pos hparent]
    . next hparent =>
      rw [if_neg hparent]
      split at h
      . contradiction
      . split at h
        . contradiction
        . contradiction
        . cases h
          rfl

theorem step_congr {s : List Char} (h : t'.get? (placeFrom p [s]) = t.get? (placeFrom p [s]))
    : t'.step p s = t.step p s := by
  simp only [placeFrom] at h
  unfold step
  split
  . rfl
  . next hcurrent =>
    rw [if_neg hcurrent] at h
    split
    . rfl
    . next hparent =>
      rw [if_neg hparent] at h
      rw [h]

theorem step_without {s : List Char} (h : t.step p s = .ok q) (gone : List String → Bool)
    : (t.without gone).step p s = .ok q
        ∨ (t.without gone).step p s = .error (.system .noEntry) := by
  unfold step at *
  by_cases hcurrent : s = ['.']
  . rw [if_pos hcurrent] at *
    exact .inl h
  . rw [if_neg hcurrent] at *
    by_cases hparent : s = ['.', '.']
    . rw [if_pos hparent] at *
      exact .inl h
    . rw [if_neg hparent] at *
      by_cases hsize : (String.ofList s).utf8ByteSize > maxName
      . rw [if_pos hsize] at h
        contradiction
      . rw [if_neg hsize] at *
        rw [get?_without (by simp)]
        by_cases hgone : gone (p ++ [String.ofList s])
        . rw [if_pos hgone]
          exact .inr rfl
        . rw [if_neg hgone]
          exact .inl h

def enter (t : FileTree) (p : List String) (ss : List (List Char)) : Except IoFault (List String) :=
  ss.foldlM t.step p

theorem enter_append (t : FileTree) (p : List String) (ss rest : List (List Char))
    : t.enter p (ss ++ rest) = t.enter p ss >>= fun q => t.enter q rest := by
  apply List.foldlM_append

theorem enter_cons_ok {s : List Char} {ss : List (List Char)}
    : t.enter p (s :: ss) = .ok q ↔ ∃ r, t.step p s = .ok r ∧ t.enter r ss = .ok q := by
  unfold enter
  rw [List.foldlM_cons]
  cases t.step p s with
  | ok r => simp [bind, Except.bind]
  | error e => simp [bind, Except.bind]

theorem place_of_enter {ss : List (List Char)} (h : t.enter p ss = .ok q) : q = placeFrom p ss := by
  induction ss generalizing p with
  | nil =>
    cases h
    rfl
  | cons s ss ih =>
    obtain ⟨r, hr, hq⟩ := enter_cons_ok.mp h
    rw [← List.singleton_append, placeFrom_append, ← step_ok hr]
    exact ih hq

theorem enter_congr {ss : List (List Char)}
    (h : ∀ front, front <+: ss → t'.get? (placeFrom p front) = t.get? (placeFrom p front))
    : t'.enter p ss = t.enter p ss := by
  induction ss generalizing p with
  | nil => rfl
  | cons s ss ih =>
    unfold enter at *
    rw [List.foldlM_cons, List.foldlM_cons, step_congr (h [s] (by simp))]
    cases hr : t.step p s with
    | error => rfl
    | ok r =>
      apply ih
      intro front hfront
      rw [step_ok hr, ← placeFrom_append]
      exact h (s :: front) (by simpa)

theorem enter_without {ss : List (List Char)} (h : t.enter p ss = .ok q) (gone : List String → Bool)
    : (t.without gone).enter p ss = .ok q
        ∨ (t.without gone).enter p ss = .error (.system .noEntry) := by
  induction ss generalizing p with
  | nil => exact .inl h
  | cons s ss ih =>
    obtain ⟨r, hr, hq⟩ := enter_cons_ok.mp h
    unfold enter at *
    rw [List.foldlM_cons]
    cases step_without hr gone with
    | inl hsame =>
      rw [hsame]
      exact ih hq
    | inr hgone =>
      rw [hgone]
      exact .inr rfl

section Name

variable (h : IsLegal name)
include h

theorem IsLegal.ne_current : name.toList ≠ ['.'] := fun hcurrent => h.1.1 (by simp [hcurrent])

theorem IsLegal.ne_parent : name.toList ≠ ['.', '.'] := fun hparent => h.1.1 (by simp [hparent])

theorem enter_name (t : FileTree) (p : List String)
    : t.enter p [name.toList] = match t.get? (p ++ [name]) with
        | none => .error (.system .noEntry)
        | some (.file ..) => .error (.system .notDirectory)
        | some (.directory _) => .ok (p ++ [name]) := by
  unfold enter step
  rw [List.foldlM_cons]
  simp only [if_neg h.ne_current, if_neg h.ne_parent, String.ofList_toList,
    if_neg (Nat.not_lt.mpr h.2.2)]
  split
  . rfl
  . rfl
  . rfl

omit h in
theorem walk_cons (t : FileTree) (path : String) (p : List String) (s : List Char)
    {rest : List (List Char)} (hrest : rest ≠ [])
    : locate.walk t path p (s :: rest) = t.step p s >>= fun q => locate.walk t path q rest := by
  rw [locate.walk, step]
  split
  . rfl
  . split
    . rfl
    . dsimp only
      split
      . rfl
      . rw [if_neg (by simpa using hrest)]
        cases t.get? (p ++ [String.ofList s]) with
        | none => rfl
        | some e =>
          cases e with
          | file => rfl
          | directory => rfl

theorem walk_append_name (t : FileTree) (path : String) (p : List String) (ss : List (List Char))
    : locate.walk t path p (ss ++ [name.toList])
        = t.enter p ss >>= fun q => .ok ⟨q, some name, locate.trailingSlash path⟩ := by
  induction ss generalizing p with
  | nil =>
    rw [List.nil_append, locate.walk, if_neg h.ne_current, if_neg h.ne_parent]
    dsimp only
    rw [String.ofList_toList, if_neg (Nat.not_lt.mpr h.2.2)]
    rfl
  | cons s ss ih =>
    unfold enter at *
    rw [List.cons_append, walk_cons _ _ _ _ (by simp), List.foldlM_cons, bind_assoc]
    simp only [ih]

omit h in
theorem exists_join_eq (base : String) (h : Path.IsName name)
    : ∃ front, Path.join base name = front ++ name ∧ (front = base ∨ front = base ++ "/") := by
  unfold Path.join
  split
  . next htail =>
    rw [Bool.or_eq_true] at htail
    cases htail with
    | inl habsolute =>
      obtain ⟨rest, hrest⟩ := (Path.isAbsolute_iff name).mp habsolute
      exact absurd (by simp [hrest]) h.2
    | inr hempty => exact ⟨base, by simp [String.isEmpty_iff.mp hempty], .inl rfl⟩
  . split
    . exact ⟨base, rfl, .inl rfl⟩
    . exact ⟨base ++ "/", rfl, .inr rfl⟩

theorem hasNul_join (base : String) : Path.hasNul (Path.join base name) = Path.hasNul base := by
  have hname : name.toList.contains '\x00' = false := by simpa using h.2.1
  obtain ⟨front, hfront, rfl | rfl⟩ := exists_join_eq base h.1
  . unfold Path.hasNul
    rw [hfront, String.toList_append, List.contains_append, hname, Bool.or_false]
  . have hslash : "/".toList.contains '\x00' = false := rfl
    unfold Path.hasNul
    rw [hfront, String.toList_append, String.toList_append, List.contains_append,
      List.contains_append, hslash, hname, Bool.or_false, Bool.or_false]

theorem utf8ByteSize_le_join (base : String)
    : base.utf8ByteSize + name.utf8ByteSize ≤ (Path.join base name).utf8ByteSize := by
  obtain ⟨front, hfront, rfl | rfl⟩ := exists_join_eq base h.1
  . have hsize := congrArg String.utf8ByteSize hfront
    rw [String.utf8ByteSize_append] at hsize
    omega
  . have hsize := congrArg String.utf8ByteSize hfront
    rw [String.utf8ByteSize_append, String.utf8ByteSize_append] at hsize
    omega

theorem locate_join (t : FileTree) (base : String)
    : t.locate (Path.join base name) =
        if Path.hasNul base then .error .nulInName
        else if (Path.join base name).utf8ByteSize > maxPath then .error (.system .nameTooLong)
        else t.enter [] (steps base) >>= fun q => .ok ⟨q, some name, false⟩ := by
  obtain ⟨front, hfront, -⟩ := exists_join_eq base h.1
  have hne : name.toList ≠ [] := fun hempty => h.1.1 (by simp [hempty])
  have hempty : ¬ (Path.join base name).isEmpty := by
    intro hempty
    rw [String.isEmpty_iff.mp hempty] at hfront
    have hlist := congrArg String.toList hfront
    rw [String.toList_append] at hlist
    exact hne (List.append_eq_nil_iff.mp hlist.symm).2
  have hslash : locate.trailingSlash (Path.join base name) = false := by
    unfold locate.trailingSlash
    rw [hfront, String.toList_append, decide_eq_false_iff_not, List.getLast?_append,
      List.getLast?_eq_some_getLast hne, Option.some_or, Option.some_inj]
    intro hlast
    exact h.1.2 (hlast ▸ List.getLast_mem hne)
  unfold locate
  rw [hasNul_join h, if_neg hempty]
  change (if _ then _ else if _ then _ else locate.walk t _ [] (steps _)) = _
  rw [steps_join base h.1, walk_append_name h, hslash]

def LeadsThrough (path : String) (q : List String) : Prop :=
  ∃ front, front <+: steps path ∧ placeFrom [] front = q

def Opens (t : FileTree) (base : String) : Prop :=
  Path.hasNul base = false ∧ t.enter [] (steps base) = .ok (place base)

omit h in
theorem Opens.congr {base : String} (h : t.Opens base)
    (hsame : ∀ q, LeadsThrough base q → t'.get? q = t.get? q)
    : t'.Opens base := by
  refine ⟨h.1, ?_⟩
  rw [enter_congr fun front hfront => hsame _ ⟨front, hfront, rfl⟩]
  exact h.2

omit h in
theorem Opens.without {base : String} (h : t.Opens base)
    (haway : ∀ q, LeadsThrough base q → gone q = false)
    : (t.without gone).Opens base :=
  h.congr fun q hq => get?_without_of_not (haway q hq)

theorem find_join {base : String} (hopens : t.Opens base)
    : t.find (Path.join base name) =
        if (Path.join base name).utf8ByteSize > maxPath then .error (.system .nameTooLong)
        else match t.get? (place base ++ [name]) with
          | none => .error (.system .noEntry)
          | some e => .ok (⟨place base, some name, false⟩, e) := by
  unfold find
  rw [locate_join h, hopens.1, hopens.2, if_neg (by decide)]
  split
  . rfl
  . simp only [bind, Except.bind, Place.path, Option.toList_some]
    cases t.get? (place base ++ [name]) with
    | none => rfl
    | some e => rfl

theorem removeDirectory_join {base : String} (hopens : t.Opens base)
    (hdirectory : t.isDirectory (place base ++ [name]))
    : t.removeDirectory (Path.join base name) =
        if (Path.join base name).utf8ByteSize > maxPath then .error (.system .nameTooLong)
        else if (t.names (place base ++ [name])).isEmpty then .ok (t.erase (place base ++ [name]))
        else .error (.system .notEmpty) := by
  obtain ⟨mode, hmode⟩ := isDirectory_iff.mp hdirectory
  unfold removeDirectory
  rw [find_join h hopens]
  split
  . rfl
  . rw [hmode]
    by_cases hempty : (t.names (place base ++ [name])).isEmpty
    . simp [bind, Except.bind, pure, Except.pure, Entry.isDirectory, Place.path, hempty]
    . simp [bind, Except.bind, throw, throwThe, MonadExceptOf.throw, Entry.isDirectory, Place.path,
        hempty]

theorem opens_of_locate {base : String} {l : Place} (hok : t.locate (Path.join base name) = .ok l)
    : t.Opens base ∧ (Path.join base name).utf8ByteSize ≤ maxPath := by
  rw [locate_join h] at hok
  split at hok
  . contradiction
  . next hnul =>
    split at hok
    . contradiction
    . next hsize =>
      cases henter : t.enter [] (steps base) with
      | error =>
        rw [henter] at hok
        contradiction
      | ok q =>
        obtain rfl := place_of_enter henter
        exact ⟨⟨by simpa using hnul, henter⟩, Nat.le_of_not_lt hsize⟩

theorem openDirectory_join_ok_iff {base : String}
    : t.openDirectory (Path.join base name) = .ok ()
        ↔ t.Opens base ∧ (Path.join base name).utf8ByteSize ≤ maxPath
          ∧ t.isDirectory (place base ++ [name]) := by
  constructor
  . intro hok
    cases hlocate : t.locate (Path.join base name) with
    | error e =>
      unfold openDirectory find at hok
      rw [hlocate] at hok
      contradiction
    | ok l =>
      obtain ⟨hopens, hsize⟩ := opens_of_locate h hlocate
      refine ⟨hopens, hsize, ?_⟩
      unfold openDirectory at hok
      rw [find_join h hopens, if_neg (Nat.not_lt.mpr hsize)] at hok
      unfold isDirectory
      cases hentry : t.get? (place base ++ [name]) with
      | none =>
        rw [hentry] at hok
        contradiction
      | some e =>
        rw [hentry] at hok
        cases e with
        | directory => rfl
        | file => contradiction
  . rintro ⟨hopens, hsize, hdirectory⟩
    obtain ⟨mode, hmode⟩ := isDirectory_iff.mp hdirectory
    unfold openDirectory
    rw [find_join h hopens, if_neg (Nat.not_lt.mpr hsize), hmode]
    rfl

theorem Opens.join {base : String} (hopens : t.Opens base)
    (hdirectory : t.isDirectory (place base ++ [name]))
    : t.Opens (Path.join base name) := by
  obtain ⟨mode, hmode⟩ := isDirectory_iff.mp hdirectory
  refine ⟨(hasNul_join h base).trans hopens.1, ?_⟩
  rw [steps_join base h.1, enter_append, hopens.2, place_join base h.1]
  change t.enter (place base) [name.toList] = _
  rw [enter_name h, hmode]

end Name

theorem prefix_of_leadsThrough {path : String} (h : ['.', '.'] ∉ steps path)
    (hleads : LeadsThrough path q)
    : q <+: place path := by
  -- Without going up, a walk only adds names to where it starts.
  have hfrom (ss : List (List Char)) (hss : ['.', '.'] ∉ ss) (p : List String)
      : p <+: placeFrom p ss := by
    induction ss generalizing p with
    | nil => exact List.prefix_rfl
    | cons s ss ih =>
      rw [List.mem_cons, not_or] at hss
      unfold placeFrom
      rw [if_neg (Ne.symm hss.1)]
      split
      . exact ih hss.2 p
      . exact (List.prefix_append _ _).trans (ih hss.2 _)
  obtain ⟨front, ⟨rest, hrest⟩, rfl⟩ := hleads
  unfold place
  change _ <+: placeFrom [] (steps path)
  rw [← hrest, placeFrom_append]
  apply hfrom
  intro hmem
  apply h
  rw [← hrest]
  exact List.mem_append_right _ hmem

theorem leadsThrough_join_iff {base : String} (h : IsLegal name)
    : LeadsThrough (Path.join base name) q ↔ LeadsThrough base q ∨ q = place base ++ [name] := by
  unfold LeadsThrough
  rw [steps_join base h.1]
  simp only [List.prefix_concat_iff]
  constructor
  . rintro ⟨front, rfl | hfront, rfl⟩
    . right
      rw [← steps_join base h.1, ← place_join base h.1]
      rfl
    . exact .inl ⟨front, hfront, rfl⟩
  . rintro (⟨front, hfront, rfl⟩ | rfl)
    . exact ⟨front, .inr hfront, rfl⟩
    . refine ⟨_, .inl rfl, ?_⟩
      rw [← steps_join base h.1, ← place_join base h.1]
      rfl

theorem enter_of_get? (h : t'.get? = t.get?) (p : List String) (ss : List (List Char))
    : t'.enter p ss = t.enter p ss :=
  enter_congr fun _ _ => congrFun h _

theorem openDirectory_without {base : String} (hlegal : IsLegal name)
    (h : t.openDirectory (Path.join base name) = .ok ()) (hgone : gone (place base ++ [name]))
    : (t.without gone).openDirectory (Path.join base name) = .error (.system .noEntry) := by
  obtain ⟨hopens, hsize, -⟩ := (openDirectory_join_ok_iff hlegal).mp h
  cases enter_without hopens.2 gone with
  | inl hsame =>
    unfold openDirectory
    rw [find_join hlegal ⟨hopens.1, hsame⟩, if_neg (Nat.not_lt.mpr hsize), get?_without (by simp),
      if_pos hgone]
    rfl
  | inr hnowhere =>
    unfold openDirectory find
    rw [locate_join hlegal, hopens.1, if_neg (by decide), if_neg (Nat.not_lt.mpr hsize), hnowhere]
    rfl

theorem list_apply (t : FileTree) (path : String)
    : FileSystem.list path t =
        ((t.openDirectory path).map fun _ =>
          (t.names (place path)).map fun name =>
            .ok (name, t.isDirectory (place path ++ [name])),
        t) := by
  unfold FileSystem.list instFileSystem ask listDirectory openDirectory
  dsimp only
  cases hfind : t.find path with
  | error => rfl
  | ok found =>
    obtain ⟨l, e⟩ := found
    rw [← place_of_find hfind]
    cases e with
    | directory => rfl
    | file => rfl

theorem openDirectory_ok_of_perm {u : FileTree} (h : u.entries.Perm t.entries)
    (hvalid : t.WellFormed) (base : String) (hlegal : IsLegal name)
    : u.openDirectory (Path.join base name) = .ok ()
        ↔ t.openDirectory (Path.join base name) = .ok () := by
  have hget := get?_of_perm h hvalid
  rw [openDirectory_join_ok_iff hlegal, openDirectory_join_ok_iff hlegal]
  unfold Opens isDirectory
  rw [enter_of_get? hget, hget]

end FileTree

end Enclosure
