import Enclosure.ControlGroup.Root
import Enclosure.Proofs.ControlGroup.Effect
import Enclosure.Proofs.FileTree.Clearing
import Enclosure.Proofs.Text.Boundary
import Enclosure.Proofs.Text.Number

/-!
This module contains the theory of the removal of a tree whose supervisor is gone: what goes, what
stays, and that the order of the entries does not matter.
-/

namespace Enclosure

namespace ControlGroup

open FileTree

variable {t : FileTree} {base name : String}

def heldFailure (base name : String) : IoFault :=
  .system (if (Path.join base name).utf8ByteSize ≤ maxPath then .notEmpty else .nameTooLong)

def heldFault (base name : String) : GroupFault :=
  .io "rmdir" (Path.join base name) (heldFailure base name)

theorem removeDirectory_apply (hopens : t.Opens base) (hlegal : IsLegal name)
    (hdirectory : t.isDirectory (place base ++ [name]))
    : FileSystem.removeDirectory (Path.join base name) t
        = if t.isRemovable base name then (.ok (), t.erase (place base ++ [name]))
          else (.error (heldFailure base name), t) := by
  change change (·.removeDirectory (Path.join base name)) t = _
  unfold change isRemovable heldFailure
  dsimp only
  rw [removeDirectory_join hlegal hopens hdirectory, hdirectory]
  by_cases hsize : (Path.join base name).utf8ByteSize ≤ maxPath
  . rw [if_neg (Nat.not_lt.mpr hsize), if_pos hsize]
    by_cases hempty : (t.names (place base ++ [name])).isEmpty
    . simp [hempty, hsize]
    . simp [hempty]
  . rw [if_pos (Nat.lt_of_not_le hsize), if_neg hsize]
    simp [hsize]

theorem removeEach_apply {names : List String} {gone : List String → Bool}
    (hopens : (t.without gone).Opens base) (hspares : ∀ name ∈ names, Spares gone base name)
    (hnodup : names.Nodup) (hlegal : ∀ name ∈ names, IsLegal name)
    (haway : ∀ name ∈ names, t.isRemovable base name → ¬ LeadsThrough base (place base ++ [name]))
    : removeEach base (names.map fun name => .ok (name, t.isDirectory (place base ++ [name])))
          (t.without gone)
        = ((names.find? (t.isHeld base)).map (heldFault base),
            t.without fun q => gone q || t.goes base names q) := by
  -- `gone` grows by each directory that is removed. It never touches the names still to come, so
  -- each of them is as it was in `t` when its turn comes.
  induction names generalizing gone with
  | nil =>
    have hgoes (q : List String) : (gone q || t.goes base [] q) = gone q := Bool.or_false _
    simp only [hgoes]
    rfl
  | cons name names ih =>
    rw [List.nodup_cons] at hnodup
    rw [List.forall_mem_cons] at hspares hlegal haway
    rw [List.map_cons, removeEach]
    cases hdirectory : t.isDirectory (place base ++ [name]) with
    | false =>
      have hremovable : t.isRemovable base name = false := by
        unfold isRemovable
        rw [hdirectory, Bool.false_and, Bool.false_and]
      rw [if_pos (by decide), ih hopens hspares.2 hnodup.2 hlegal.2 haway.2, List.find?_cons_of_neg]
      . simp only [goes_cons, hremovable, Bool.and_false, Bool.false_or]
      . simp [isHeld, hdirectory]
    | true =>
      have hdirectory' := (isDirectory_without (t := t) hspares.1.here).trans hdirectory
      rw [if_neg (by decide), StateM.bind_apply, removeDirectory_apply hopens hlegal.1 hdirectory',
        hspares.1.isRemovable]
      cases hremovable : t.isRemovable base name with
      | false =>
        rw [if_neg (by decide), StateM.bind_apply]
        dsimp only
        rw [ih hopens hspares.2 hnodup.2 hlegal.2 haway.2, List.find?_cons_of_pos]
        . simp only [goes_cons, hremovable, Bool.and_false, Bool.false_or]
          rfl
        . simp [isHeld, hdirectory, hremovable]
      | true =>
        have hopens'
            : ((t.without gone).without fun q => decide (q = place base ++ [name])).Opens base := by
          apply hopens.without
          intro q hq
          rw [decide_eq_false_iff_not]
          rintro rfl
          exact haway.1 hremovable hq
        have hspares'
            : ∀ other ∈ names, Spares (fun q => gone q || decide (q = place base ++ [name])) base
                other := by
          intro other hother
          apply (hspares.2 other hother).or
          rintro rfl
          exact hnodup.1 hother
        rw [if_pos rfl, erase_eq_without, StateM.bind_apply]
        rw [without_without] at *
        dsimp only
        rw [ih hopens' hspares' hnodup.2 hlegal.2 haway.2, List.find?_cons_of_neg]
        . simp only [goes_cons, hremovable, Bool.and_true, Bool.or_assoc]
          rfl
        . simp [isHeld, hdirectory, hremovable]

theorem toList_treeName (pid : UInt32)
    : (s!"confine-{pid}").toList = "confine-".toList ++ Nat.toDigits 10 pid.toNat := by
  rw [String.toList_append, ← Text.toList_toString]
  rfl

theorem utf8ByteSize_ofList_le (cs : List Char)
    : (String.ofList cs).utf8ByteSize ≤ 4 * cs.length := by
  induction cs with
  | nil => exact Nat.zero_le _
  | cons c cs ih =>
    have hone := Char.utf8Size_le_four c
    rw [String.ofList_cons, String.utf8ByteSize_append, String.utf8ByteSize_singleton,
      List.length_cons]
    omega

theorem isLegal_treeName (pid : UInt32) : IsLegal s!"confine-{pid}" := by
  have hchars : ∀ c ∈ s!"confine-{pid}".toList, c ∈ "confine-".toList ∨ c.isDigit := by
    rw [toList_treeName]
    intro c hc
    rw [List.mem_append] at hc
    exact hc.imp_right (Text.isDigit_toDigits _ c)
  refine ⟨⟨?_, ?_⟩, ?_, ?_⟩
  . rw [toList_treeName]
    simp
  . exact fun hslash => absurd (hchars _ hslash) (by decide)
  . exact fun hnul => absurd (hchars _ hnul) (by decide)
  . have hdigits : (Nat.toDigits 10 pid.toNat).length ≤ 10 :=
      (Nat.length_toDigits_le_iff (by decide) (by decide)).mpr
        (Nat.lt_trans pid.toNat_lt (by decide))
    have hsize := utf8ByteSize_ofList_le s!"confine-{pid}".toList
    rw [String.ofList_toList, toList_treeName, List.length_append] at hsize
    have hfront : "confine-".toList.length = 8 := rfl
    unfold maxName
    omega

theorem place_treePath (root : String) (pid : UInt32)
    : place (treePath root pid) = place root ++ [s!"confine-{pid}"] :=
  place_join root (isLegal_treeName pid).1

def outcome (t : FileTree) (base : String) : Except GroupFault Unit :=
  match (t.names (place base)).find? (t.isHeld base) with
  | some name => .error (heldFault base name)
  | none =>
    if (t.names (place base)).all (t.isRemovable base) then .ok ()
    else .error (.io "rmdir" base (.system .notEmpty))

variable {root : String} {pid : UInt32}

theorem removeTree_of_error (h : t.openDirectory (treePath root pid) = .error e)
    : (removeTree root pid : GroupM FileTree Unit).run t
        = (if e.isNotFound then .ok () else .error (.io "opendir" (treePath root pid) e), t) := by
  unfold removeTree
  rw [ExceptT.run_lift_bind_apply, list_apply, h]
  dsimp only [Except.map]
  split
  . rfl
  . rfl

theorem removeDirectory_base {dir : String} (hbase : base = Path.join root dir)
    (hlegal : IsLegal dir) (h : t.openDirectory base = .ok ()) (haway : t.WayKept root base)
    : FileSystem.removeDirectory base (t.without (t.goes base (t.names (place base))))
        = (if (t.names (place base)).all (t.isRemovable base) then .ok ()
            else .error (.system .notEmpty), t.without (t.vanishes base)) := by
  have hplace : place base = place root ++ [dir] := by
    rw [hbase, place_join root hlegal.1]
  rw [hbase, openDirectory_join_ok_iff hlegal, ← hbase, ← hplace] at h
  obtain ⟨hroot, hsize, hdirectory⟩ := h
  have hkept : t.goes base (t.names (place base)) (place base) = false := by
    rw [Bool.eq_false_iff, Ne, goes_eq_true_iff]
    simp
  have hopens : (t.without (t.goes base (t.names (place base)))).Opens root := by
    apply hroot.without
    intro q hq
    rw [Bool.eq_false_iff, Ne, goes_eq_true_iff]
    rintro ⟨name, -, rfl, hremovable⟩
    exact haway name hremovable hq
  have hempty : ((t.without (t.goes base (t.names (place base)))).names (place base)).isEmpty
      = (t.names (place base)).all (t.isRemovable base) := by
    rw [Bool.eq_iff_iff, List.isEmpty_iff, List.all_eq_true, names_without, List.filter_eq_nil_iff]
    apply forall₂_congr
    intro name hname
    rw [goes_child hname]
    simp
  have hremovable : (t.without (t.goes base (t.names (place base)))).isRemovable root dir
      = (t.names (place base)).all (t.isRemovable base) := by
    rw [isRemovable, ← hplace, ← hbase, isDirectory_without hkept, hdirectory, hempty]
    simp [hsize]
  have hremove := removeDirectory_apply hopens hlegal <| by
    rw [← hplace, isDirectory_without hkept, hdirectory]
  rw [← hbase, ← hplace, hremovable] at hremove
  rw [hremove]
  unfold vanishes heldFailure
  cases (t.names (place base)).all (t.isRemovable base) with
  | true =>
    rw [if_pos rfl, erase_eq_without, without_without]
    simp
  | false =>
    rw [if_neg (by decide), ← hbase, if_pos hsize]
    simp

theorem removeTree_of_ok (h : t.openDirectory (treePath root pid) = .ok ()) (hvalid : t.WellFormed)
    (haway : t.WayKept root (treePath root pid))
    : (removeTree root pid : GroupM FileTree Unit).run t
        = (outcome t (treePath root pid), t.without (t.vanishes (treePath root pid))) := by
  have hlegal := isLegal_treeName pid
  obtain ⟨hroot, hsize, hdirectory⟩ := (openDirectory_join_ok_iff hlegal).mp h
  -- Before the first entry is tried, nothing is gone.
  have hself : t.without (fun _ => false) = t := without_eq_self (by simp)
  have hopens : (t.without fun _ => false).Opens (treePath root pid) := by
    rw [hself]
    exact hroot.join hlegal hdirectory
  have hspares : ∀ name ∈ t.names (place (treePath root pid)),
      Spares (fun _ => false) (treePath root pid) name := fun _ _ => ⟨rfl, fun _ => rfl⟩
  have hrun := removeEach_apply hopens hspares (hvalid.nodup_names _) hvalid.isLegal_of_mem
    fun name _ hremovable hleads => by
      cases (leadsThrough_join_iff hlegal).mp hleads with
      | inl hleads => exact haway name hremovable hleads
      | inr heq =>
        rw [place_treePath] at heq
        simp at heq
  unfold removeTree
  rw [ExceptT.run_lift_bind_apply, list_apply, h]
  dsimp only [Except.map]
  rw [ExceptT.run_lift_bind_apply]
  simp only [hself, Bool.false_or] at hrun
  rw [hrun]
  unfold outcome
  cases hheld : (t.names (place (treePath root pid))).find? (t.isHeld (treePath root pid)) with
  | some name =>
    -- The directory itself is not tried here, and it would not go: not all of its entries do.
    have hall
        : (t.names (place (treePath root pid))).all (t.isRemovable (treePath root pid))
            = false := by
      have hname := (isHeld_iff.mp (List.find?_some hheld)).2
      rw [List.all_eq_false]
      exact ⟨name, List.mem_of_find?_eq_some hheld, by rw [hname]; decide⟩
    unfold vanishes
    rw [hall]
    simp
    rfl
  | none =>
    dsimp only [Option.map_none]
    rw [named_run, removeDirectory_base (show treePath root pid = _ from rfl) hlegal h haway]
    cases (t.names (place (treePath root pid))).all (t.isRemovable (treePath root pid)) with
    | true => rfl
    | false => rfl

/-- What is left when a tree has been removed that could be opened, and what is told about it. -/
structure Removed (t : FileTree) (base : String) (result : Except GroupFault Unit) (t' : FileTree)
    : Prop where
  gone (name : String) : t.isRemovable base name → t'.get? (place base ++ [name]) = none
  kept (q : List String) : q ≠ place base →
    (∀ name, q = place base ++ [name] → ¬ t.isRemovable base name) → t'.get? q = t.get? q
  base_gone :
    t'.get? (place base) = none ↔ ∀ name ∈ t.names (place base), t.isRemovable base name
  base_kept : t'.get? (place base) ≠ none → t'.get? (place base) = t.get? (place base)
  ok_iff : result = .ok () ↔ t'.get? (place base) = none
  firstHeld (front back : List String) (name : String) :
    t.names (place base) = front ++ name :: back → t.isHeld base name →
      (∀ other ∈ front, ¬ t.isHeld base other) → result = .error (heldFault base name)
  onlyFiles : t'.get? (place base) ≠ none →
    (∀ name ∈ t'.names (place base), ¬ t'.isDirectory (place base ++ [name])) →
      result = .error (.io "rmdir" base (.system .notEmpty))

theorem outcome_eq_ok_iff
    : outcome t base = .ok () ↔ ∀ name ∈ t.names (place base), t.isRemovable base name := by
  unfold outcome
  split
  . next name hheld =>
    simp only [reduceCtorEq, false_iff]
    intro hall
    have hname := (isHeld_iff.mp (List.find?_some hheld)).2
    rw [hall name (List.mem_of_find?_eq_some hheld)] at hname
    contradiction
  . rw [← List.all_eq_true]
    cases (t.names (place base)).all (t.isRemovable base) with
    | true => simp
    | false => simp

theorem removed_outcome (hdirectory : t.isDirectory (place base)) (hne : place base ≠ [])
    : Removed t base (outcome t base) (t.without (t.vanishes base)) := by
  have hbase : (t.without (t.vanishes base)).get? (place base) = none
      ↔ ∀ name ∈ t.names (place base), t.isRemovable base name := by
    obtain ⟨mode, hmode⟩ := isDirectory_iff.mp hdirectory
    rw [get?_without hne, ← vanishes_base, hmode]
    simp
  constructor
  . intro name hremovable
    rw [get?_without (by simp), vanishes_child, if_pos hremovable]
  . intro q hq hkept
    apply get?_without_of_not
    rw [Bool.eq_false_iff, Ne, vanishes_iff]
    rintro (⟨name, heq, hremovable⟩ | heq)
    . exact hkept name heq hremovable
    . exact hq heq.1
  . exact hbase
  . intro hleft
    apply get?_without_of_not
    rw [Bool.eq_false_iff, Ne, vanishes_base, ← hbase]
    exact hleft
  . rw [hbase, outcome_eq_ok_iff]
  . intro front back name hnames hheld hfront
    unfold outcome
    rw [List.find?_eq_some_iff_append.mpr ⟨hheld, front, back, hnames, by simpa using hfront⟩]
  . intro hleft hfiles
    rw [Ne, hbase, ← List.all_eq_true, Bool.not_eq_true] at hleft
    unfold outcome
    rw [List.find?_eq_none.mpr, hleft]
    . rfl
    . intro name hname hheld
      obtain ⟨hdirectory, hremovable⟩ := isHeld_iff.mp hheld
      rw [← vanishes_child] at hremovable
      apply hfiles name
      . rw [names_without, List.mem_filter, hremovable]
        exact ⟨hname, rfl⟩
      . rwa [isDirectory_without hremovable]

section Tree

variable (hvalid : t.WellFormed) (haway : t.WayKept root (treePath root pid))
include hvalid haway

theorem removeTree_of_perm {u : FileTree} (h : u.entries.Perm t.entries)
    : ((removeTree root pid : GroupM FileTree Unit).run u).2.entries.Perm
        ((removeTree root pid : GroupM FileTree Unit).run t).2.entries := by
  have hopen_iff := openDirectory_ok_of_perm h hvalid root (isLegal_treeName pid)
  cases hopen : t.openDirectory (treePath root pid) with
  | error e =>
    cases hopen' : u.openDirectory (treePath root pid) with
    | error e' =>
      rw [removeTree_of_error hopen, removeTree_of_error hopen']
      exact h
    | ok =>
      cases hopen.symm.trans (hopen_iff.mp hopen')
  | ok =>
    have haway' : u.WayKept root (treePath root pid) := fun name hremovable =>
      haway name ((isRemovable_of_perm h hvalid _ _).symm.trans hremovable)
    rw [removeTree_of_ok hopen hvalid haway,
      removeTree_of_ok (hopen_iff.mpr hopen) (WellFormed.of_perm h hvalid) haway',
      vanishes_of_perm h hvalid]
    exact h.filter _

theorem removeTree_again (h : t.openDirectory (treePath root pid) = .ok ())
    : ((removeTree root pid : GroupM FileTree Unit).run
          (t.without (t.vanishes (treePath root pid)))).2
        = t.without (t.vanishes (treePath root pid)) := by
  have hlegal := isLegal_treeName pid
  -- Either the tree itself is gone, then there is nothing to open, or what is left of it can be
  -- opened and has nothing in it that could be removed.
  by_cases hall : t.vanishes (treePath root pid) (place (treePath root pid))
  . have hgone : (t.without (t.vanishes (treePath root pid))).openDirectory (treePath root pid)
        = .error (.system .noEntry) := by
      apply openDirectory_without hlegal h
      rwa [← place_treePath]
    rw [removeTree_of_error hgone]
  . obtain ⟨hroot, hsize, hdirectory⟩ := (openDirectory_join_ok_iff hlegal).mp h
    have hopen : (t.without (t.vanishes (treePath root pid))).openDirectory (treePath root pid)
        = .ok () := by
      refine (openDirectory_join_ok_iff hlegal).mpr ⟨?_, hsize, ?_⟩
      . apply hroot.without
        intro q hq
        rw [Bool.eq_false_iff, Ne, vanishes_iff]
        rintro (⟨name, hname, hremovable⟩ | ⟨-, hnames⟩)
        . rw [hname] at hq
          exact haway name hremovable hq
        . exact hall (vanishes_base.mpr hnames)
      . rw [← place_treePath] at *
        rw [isDirectory_without (by simpa using hall)]
        exact hdirectory
    have haway' : (t.without (t.vanishes (treePath root pid))).WayKept root (treePath root pid) :=
      fun name hremovable => absurd (isRemovable_vanished.symm.trans hremovable) Bool.false_ne_true
    rw [removeTree_of_ok hopen (hvalid.without _) haway']
    exact without_eq_self fun entry _ => vanishes_vanished hall entry.1

end Tree

/-- Removing a tree removes its empty directories and nothing else, and then the tree if nothing is
left in it. The order of the entries does not matter to what is left, and doing it again changes
nothing. The way to the tree must not be through a directory that is removed. -/
theorem removeTree_removed (root : String) (pid : UInt32) (t : FileTree) (hvalid : t.WellFormed)
    (haway : t.WayKept root (treePath root pid))
    : ∃ result t',
        (removeTree root pid : GroupM FileTree Unit).run t = (result, t')
          ∧ (∀ e, t.openDirectory (treePath root pid) = .error e →
              result
                  = (if e.isNotFound then .ok ()
                    else .error (.io "opendir" (treePath root pid) e))
                ∧ t' = t)
          ∧ (t.openDirectory (treePath root pid) = .ok () →
              Removed t (treePath root pid) result t')
          ∧ (∀ u, u.entries.Perm t.entries →
              ((removeTree root pid : GroupM FileTree Unit).run u).2.entries.Perm t'.entries)
          ∧ ((removeTree root pid : GroupM FileTree Unit).run t').2 = t' := by
  cases hopen : t.openDirectory (treePath root pid) with
  | error e =>
    refine ⟨_, _, removeTree_of_error hopen, ?_, nofun, fun u hu => ?_, ?_⟩
    . rintro _ ⟨⟩
      exact ⟨rfl, rfl⟩
    . have hperm := removeTree_of_perm hvalid haway hu
      rw [removeTree_of_error hopen] at hperm
      exact hperm
    . rw [removeTree_of_error hopen]
  | ok =>
    have hrun := removeTree_of_ok hopen hvalid haway
    refine ⟨_, _, hrun, nofun, fun _ => ?_, fun u hu => ?_, removeTree_again hvalid haway hopen⟩
    . obtain ⟨-, -, hdirectory⟩ := (openDirectory_join_ok_iff (isLegal_treeName pid)).mp hopen
      rw [← place_treePath] at hdirectory
      apply removed_outcome hdirectory
      simp [place_treePath]
    . have hperm := removeTree_of_perm hvalid haway hu
      rw [hrun] at hperm
      exact hperm

-- A tree where one directory is empty and another is not.
def leftBehind : FileTree where
  entries :=
    [(["r"], .directory 0o755), (["r", "confine-7"], .directory 0o755),
      (["r", "confine-7", "sandbox-1"], .directory 0o755),
      (["r", "confine-7", "sandbox-1", "busy"], .file 0o644 ""),
      (["r", "confine-7", "pid1"], .directory 0o755)]

theorem removeTree_removed_of_leftBehind
    : leftBehind.WellFormed ∧ leftBehind.WayKept "/r" (treePath "/r" 7)
        ∧ ∃ result t',
          (removeTree "/r" 7 : GroupM FileTree Unit).run leftBehind = (result, t')
            ∧ result = .error (.io "rmdir" "/r/confine-7/sandbox-1" (.system .notEmpty))
            ∧ Removed leftBehind (treePath "/r" 7) result t'
            ∧ t'.entries = leftBehind.entries.take 4 := by
  have hvalid : leftBehind.WellFormed := ⟨by decide, by decide⟩
  have hway : leftBehind.WayKept "/r" (treePath "/r" 7) :=
    .of_steps (isLegal_treeName 7) (by decide)
  obtain ⟨result, t', hrun, -, hremoved, -, -⟩ := removeTree_removed "/r" 7 leftBehind hvalid hway
  have hopen : leftBehind.openDirectory (treePath "/r" 7) = .ok () := by
    rw [treePath, openDirectory_join_ok_iff (isLegal_treeName 7)]
    exact ⟨⟨by decide +kernel, by rfl⟩, by decide +kernel, by decide +kernel⟩
  have hremoved := hremoved hopen
  refine ⟨hvalid, hway, result, t', hrun, ?_, hremoved, ?_⟩
  . apply hremoved.firstHeld [] ["pid1"] "sandbox-1"
    . decide +kernel
    . decide +kernel
    . simp
  . have ht' : ((removeTree "/r" 7 : GroupM FileTree Unit).run leftBehind).2.entries
        = leftBehind.entries.take 4 := by
      decide +kernel
    rw [hrun] at ht'
    exact ht'

def slashes (n : Nat) : String :=
  String.ofList (List.replicate n '/')

theorem steps_slashes (n : Nat) : steps (slashes n) = [] := by
  have hsplit : split (fun c => decide (c = '/')) (List.replicate n '/')
      = List.replicate (n + 1) [] := by
    induction n with
    | zero => rfl
    | succ n ih =>
      rw [List.replicate_succ, split, if_pos (by decide), ih]
      rfl
  unfold steps Path.segments slashes
  rw [String.toList_ofList, hsplit, List.filter_replicate_of_neg (by decide)]

theorem utf8ByteSize_slashes (n : Nat) : (slashes n).utf8ByteSize = n := by
  rw [slashes, Text.utf8ByteSize_replicate]
  exact Nat.mul_one n

theorem hasNul_slashes (n : Nat) : Path.hasNul (slashes n) = false := by
  unfold Path.hasNul slashes
  simp

theorem join_slashes (n : Nat) (h : Path.isAbsolute name = false)
    : Path.join (slashes (n + 1)) name = slashes (n + 1) ++ name := by
  have hempty : (slashes (n + 1)).isEmpty = false := by
    rw [← Bool.not_eq_true, String.isEmpty_iff]
    intro hnil
    have hlist := congrArg String.toList hnil
    unfold slashes at hlist
    simp at hlist
  have hlast : (slashes (n + 1)).toList.getLast? = some '/' := by
    unfold slashes
    simp [List.getLast?_replicate]
  unfold Path.join
  rw [h, hempty, if_neg (by decide), if_pos hlast]

def oneEmpty : FileTree where
  entries := [(["confine-7"], .directory 0o755), (["confine-7", "x"], .directory 0o755)]

theorem removeTree_leaves_oneEmpty
    : oneEmpty.WellFormed
        ∧ oneEmpty.names ["confine-7"] = ["x"] ∧ oneEmpty.isDirectory ["confine-7", "x"]
        ∧ oneEmpty.names ["confine-7", "x"] = []
        ∧ (place (treePath "/confine-7/x/../.." 7) = ["confine-7"]
          ∧ (oneEmpty.openDirectory (treePath "/confine-7/x/../.." 7)).isOk
          ∧ (((removeTree "/confine-7/x/../.." 7 : GroupM FileTree Unit).run oneEmpty).2.get?
              ["confine-7"]).isSome)
        ∧ place (treePath (slashes 4086) 7) = ["confine-7"]
        ∧ (oneEmpty.openDirectory (treePath (slashes 4086) 7)).isOk
        ∧ (((removeTree (slashes 4086) 7 : GroupM FileTree Unit).run oneEmpty).2.get?
            ["confine-7", "x"]).isSome := by
  have hlegal := isLegal_treeName 7
  have hplace : place (slashes 4086) = [] := congrArg (placeFrom []) (steps_slashes 4086)
  have hbase : place (treePath (slashes 4086) 7) = ["confine-7"] := by
    rw [place_treePath, hplace]
    rfl
  have hsize : (treePath (slashes 4086) 7).utf8ByteSize = 4095 := by
    rw [treePath, join_slashes 4085 (by decide), String.utf8ByteSize_append, utf8ByteSize_slashes]
    decide +kernel
  have hopen : oneEmpty.openDirectory (treePath (slashes 4086) 7) = .ok () := by
    rw [treePath, openDirectory_join_ok_iff hlegal, hplace]
    refine ⟨⟨hasNul_slashes 4086, ?_⟩, ?_, by decide +kernel⟩
    . rw [steps_slashes, hplace]
      rfl
    . exact Nat.le_of_eq hsize
  have hvalid : oneEmpty.WellFormed := ⟨by decide, by decide⟩
  have hway : oneEmpty.WayKept (slashes 4086) (treePath (slashes 4086) 7) := by
    apply WayKept.of_steps hlegal
    simp [steps_slashes]
  refine ⟨hvalid, by decide, by decide, by decide, ?_, hbase, ?_, ?_⟩
  . decide +kernel
  . rw [hopen]
    rfl
  . rw [removeTree_of_ok hopen hvalid hway, get?_without_of_not]
    . rfl
    . have hname : ["confine-7", "x"] = place (treePath (slashes 4086) 7) ++ ["x"] := by
        rw [hbase]
        rfl
      have hlong : ¬ (Path.join (treePath (slashes 4086) 7) "x").utf8ByteSize ≤ maxPath := by
        have hlonger := utf8ByteSize_le_join (show IsLegal "x" by decide)
          (treePath (slashes 4086) 7)
        have hone : "x".utf8ByteSize = 1 := rfl
        unfold maxPath
        omega
      rw [hname, vanishes_child, isRemovable, decide_eq_false hlong, Bool.and_false]

end ControlGroup

end Enclosure
