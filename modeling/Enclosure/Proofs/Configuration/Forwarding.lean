import Enclosure.Configuration.Variables
import Enclosure.Proofs.Lookup
import Enclosure.Proofs.Path
import Enclosure.Proofs.Settings.Variables

/-!
This module contains what arrives of a configuration that is handed on in variables. Every setting
has its variable and the reader finds it again, so all that can change is how a value reads.
-/

namespace Enclosure

namespace Settings

def IsPlain (key : String) : Prop :=
  Name.ofString key = { root := key }

instance (key : String) : Decidable (IsPlain key) :=
  inferInstanceAs (Decidable (_ = _))

theorem get?_put_self (s : Settings) (key : String) (v : Setting)
    : (s.put { root := key } v).get? key = some v := by
  have hnone : (s.filter (·.1 ≠ key)).lookup key = none := by
    rw [List.lookup_eq_none_iff]
    intro entry hentry
    have hne := (List.mem_filter.mp hentry).2
    rw [bne_iff_ne]
    simpa using Ne.symm (by simpa using hne)
  unfold put get?
  rw [List.lookup_append, hnone]
  simp

theorem get?_put_of_ne (s : Settings) {key key' : String} (h : key' ≠ key) (v : Setting)
    : (s.put { root := key } v).get? key' = s.get? key' := by
  have hne : (key' == key) = false := by simpa using h
  unfold put get?
  rw [List.lookup_append, lookup_filter (p := (·.1 ≠ key)) fun _ => by simpa using h]
  simp [List.lookup_cons, hne]

theorem get?_ofAssignments? {a : Assignments} (h : ∀ entry ∈ a, IsPlain entry.1)
    : ∃ s, ofAssignments? a = some s ∧ ∀ key, s.get? key = a.reverse.lookup key := by
  have hfold (s : Settings) (key : String)
      : (a.foldl (fun s entry => s.put { root := entry.1 } entry.2) s).get? key
          =
        (a.reverse.lookup key).or (s.get? key) := by
    clear h
    induction a generalizing s with
    | nil => rfl
    | cons entry a ih =>
      obtain ⟨name, value⟩ := entry
      rw [List.foldl_cons, ih, List.reverse_cons, List.lookup_append, Option.or_assoc]
      congr 1
      by_cases hkey : key = name
      . rw [hkey, get?_put_self]
        simp
      . have hne : (key == name) = false := by simpa using hkey
        rw [get?_put_of_ne s hkey]
        simp [List.lookup_cons, hne]
  unfold ofAssignments?
  dsimp only
  rw [List.map_congr_left (g := fun entry => ({ root := entry.1 }, entry.2))]
  . rw [if_neg (by simp), List.foldl_map]
    refine ⟨_, rfl, ?_⟩
    intro key
    rw [hfold]
    simp [get?]
  . intro entry hentry
    rw [h entry hentry]

def IsSmall (key : String) : Prop :=
  (key.toList.map Char.toUpper).map small = key.toList

instance (key : String) : Decidable (IsSmall key) :=
  inferInstanceAs (Decidable (_ = _))

end Settings

namespace Configuration

open Settings

theorem afterStart?_variableName {key : String} (h : IsSmall key)
    : afterStart? (variableStart.toList.map small) ((variableName key).toList.map small)
        =
      some key.toList := by
  unfold IsSmall at h
  unfold variableName
  rw [String.toList_append, List.map_append, String.toList_ofList, h]
  simp [afterStart?]

theorem ofVariables_variableName {vars : List (String × String)} (h : ∀ var ∈ vars, IsSmall var.1)
    : Settings.ofVariables variableStart (vars.map fun var => (variableName var.1, var.2))
        =
      vars.map fun var => (var.1, ofVariable var.2) := by
  unfold Settings.ofVariables
  induction vars with
  | nil => rfl
  | cons var vars ih =>
    rw [List.forall_mem_cons] at h
    rw [List.map_cons, List.filterMap_cons, ih h.2]
    simp [afterStart?_variableName h.1]

def handedOn (c : Configuration) (log : Option String) : List (String × String) :=
  [("max_parallel_sandboxes", toString c.maxParallel),
    ("shutdown_timeout_ms", toString c.shutdownMillis)]
  ++ (c.supervisorPath.map fun path => ("supervisor_path", path)).toList
  ++ (c.groupRoot.map fun root => ("cgroup_root", root)).toList
  ++ (log.map fun l => ("log", l)).toList

theorem toVariables_append_log (c : Configuration) (log : Option String)
    : c.toVariables ++ (log.map fun l => (logVariable, l)).toList
        =
      (c.handedOn log).map fun var => (variableName var.1, var.2) := by
  unfold handedOn toVariables logVariable
  simp only [List.map_append, ← Option.toList_map, Option.map_map]
  rfl

theorem handedOn_name (h : var ∈ handedOn c log) : IsSmall var.1 ∧ IsPlain var.1 := by
  have hkeys : ∀ key ∈ ["max_parallel_sandboxes", "shutdown_timeout_ms", "supervisor_path",
      "cgroup_root", "log"], IsSmall key ∧ IsPlain key := by decide
  apply hkeys
  unfold handedOn at h
  simp only [List.mem_append, List.mem_cons, Option.mem_toList, Option.map_eq_some_iff] at h
  grind

theorem nodup_handedOn (c : Configuration) (log : Option String)
    : ((c.handedOn log).map Prod.fst).Nodup := by
  unfold handedOn
  cases c.supervisorPath <;> cases c.groupRoot <;> cases log <;> simp

theorem lookup_handedOn (c : Configuration) (log : Option String)
    : (c.handedOn log).lookup "supervisor_path" = c.supervisorPath
        ∧ (c.handedOn log).lookup "cgroup_root" = c.groupRoot
        ∧ (c.handedOn log).lookup "max_parallel_sandboxes" = some (toString c.maxParallel)
        ∧ (c.handedOn log).lookup "shutdown_timeout_ms" = some (toString c.shutdownMillis) := by
  unfold handedOn
  cases c.supervisorPath <;> cases c.groupRoot <;> cases log <;> simp [List.lookup_cons]

def restored (c : Configuration) : Configuration :=
  { c with
    supervisorPath := c.supervisorPath.map restoredText
    maxParallel := restoredWord c.maxParallel
    shutdownMillis := restoredWord c.shutdownMillis }

theorem validate_eq_ok_iff (c : Configuration)
    : c.validate = .ok ()
        ↔ c.maxParallel ≠ 0 ∧ c.shutdownMillis ≠ 0
          ∧ ∀ root ∈ c.groupRoot, Path.isAbsolute root := by
  unfold validate
  by_cases hparallel : c.maxParallel = 0
  . simp only [hparallel, if_true]
    constructor
    . intro h
      contradiction
    . simp
  . by_cases htime : c.shutdownMillis = 0
    . simp only [hparallel, htime, if_true, if_false]
      constructor
      . intro h
        contradiction
      . simp
    . simp only [hparallel, htime, if_false]
      cases c.groupRoot with
      | none =>
        simp [hparallel, htime]
        rfl
      | some root =>
        cases hroot : Path.isAbsolute root with
        | true =>
          simp [hparallel, htime, hroot]
          rfl
        | false =>
          simp [hroot]

theorem restored_validate {c : Configuration} (h : c.validate = .ok ())
    : c.restored.validate = .ok () := by
  rw [validate_eq_ok_iff] at *
  exact ⟨restoredWord_ne_zero h.1, restoredWord_ne_zero h.2.1, h.2.2⟩

theorem slash_mem_of_isAbsolute {path : String} (h : Path.isAbsolute path) : '/' ∈ path.toList := by
  obtain ⟨rest, rfl⟩ := (Path.isAbsolute_iff path).mp h
  simp

theorem map_restoredText_groupRoot {c : Configuration} (h : c.validate = .ok ())
    : c.groupRoot.map restoredText = c.groupRoot := by
  rw [validate_eq_ok_iff] at h
  cases hroot : c.groupRoot with
  | none => rfl
  | some root =>
    rw [Option.map_some, restoredText_of_slash (slash_mem_of_isAbsolute (h.2.2 root hroot))]

theorem optionalText_ofVariable (origin : SettingsOrigin) {s : Settings} {key : String}
    {value : Option String} (h : s.get? key = value.map ofVariable)
    : optionalText origin s key = .ok (value.map restoredText) := by
  unfold optionalText
  rw [h]
  cases value with
  | none => rfl
  | some value =>
    have htext := toText_ofVariable value
    rw [Option.map_some]
    split
    . contradiction
    . next habsent =>
      rw [Option.some.inj habsent] at htext
      contradiction
    . next found hfound =>
      rw [← Option.some.inj hfound, htext]
      rfl

theorem word_ofVariable (origin : SettingsOrigin) {s : Settings} {key : String} {n : UInt64}
    (h : s.get? key = some (ofVariable (toString n))) (default : UInt64)
    : word origin s key default = .ok (restoredWord n) := by
  unfold word
  rw [h]
  dsimp only
  rw [toWord_ofVariable]
  rfl

theorem get?_of_handedOn {c : Configuration} {log : Option String} {vars : List (String × String)}
    (h : vars.Perm (c.toVariables ++ (log.map fun l => (logVariable, l)).toList))
    : ∃ s, ofAssignments? (Settings.ofVariables variableStart vars) = some s
        ∧ ∀ key, s.get? key = ((c.handedOn log).lookup key).map ofVariable := by
  rw [toVariables_append_log] at h
  have hperm : (Settings.ofVariables variableStart vars).Perm
      ((c.handedOn log).map fun var => (var.1, ofVariable var.2)) := by
    rw [← ofVariables_variableName fun var hvar => (handedOn_name hvar).1]
    exact h.filterMap _
  have hnodup : ((Settings.ofVariables variableStart vars).map Prod.fst).Nodup := by
    apply (hperm.map Prod.fst).nodup_iff.mpr
    rw [List.map_map]
    exact nodup_handedOn c log
  have hplain : ∀ entry ∈ Settings.ofVariables variableStart vars, IsPlain entry.1 := by
    intro entry hentry
    obtain ⟨var, hvar, rfl⟩ := List.mem_map.mp (hperm.mem_iff.mp hentry)
    exact (handedOn_name hvar).2
  obtain ⟨s, hs, hget⟩ := get?_ofAssignments? hplain
  refine ⟨s, hs, ?_⟩
  intro key
  rw [hget, ← lookup_of_perm (List.reverse_perm _).symm hnodup, lookup_of_perm hperm hnodup,
    lookup_map fun _ => ofVariable]

theorem ofVariables_of_perm {c : Configuration} (h : c.validate = .ok ())
    {log : Option String} {vars : List (String × String)}
    (hvars : vars.Perm (c.toVariables ++ (log.map fun l => (logVariable, l)).toList))
    : ofVariables vars = .ok c.restored := by
  obtain ⟨s, hs, hget⟩ := get?_of_handedOn hvars
  obtain ⟨hpath, hroot, hparallel, htime⟩ := lookup_handedOn c log
  unfold ofVariables ofAssignments
  rw [hs]
  unfold ofSettings
  dsimp only
  rw [optionalText_ofVariable _ (by rw [hget, hpath]),
    optionalText_ofVariable _ (by rw [hget, hroot]),
    word_ofVariable _ (by rw [hget, hparallel]; rfl), word_ofVariable _ (by rw [hget, htime]; rfl),
    map_restoredText_groupRoot h]
  change c.restored.validate.bind (fun _ => .ok c.restored) = .ok c.restored
  rw [restored_validate h]
  rfl

theorem restored_eq_iff (c : Configuration)
    : c.restored = c
        ↔ (∀ path ∈ c.supervisorPath, restoredText path = path)
          ∧ IsExact c.maxParallel ∧ IsExact c.shutdownMillis := by
  unfold restored
  rw [← restoredWord_eq_iff, ← restoredWord_eq_iff]
  obtain ⟨path, root, parallel, millis⟩ := c
  cases path with
  | none => simp
  | some path => simp

/-- A configuration that is handed on arrives as it is exactly if its path and its numbers do. -/
theorem ofVariables_toVariables {c : Configuration} (h : c.validate = .ok ())
    : ofVariables c.toVariables = .ok c.restored
        ∧ (ofVariables c.toVariables = .ok c
            ↔ (∀ path ∈ c.supervisorPath, restoredText path = path)
              ∧ IsExact c.maxParallel ∧ IsExact c.shutdownMillis)
        ∧ ∀ path ∈ c.supervisorPath, '/' ∈ path.toList → restoredText path = path := by
  have hrestored : ofVariables c.toVariables = .ok c.restored := by
    apply ofVariables_of_perm h
    rw [Option.map_none, Option.toList_none, List.append_nil]
  refine ⟨hrestored, ?_, ?_⟩
  . rw [hrestored, Except.ok.injEq, restored_eq_iff]
  . intro path _
    apply restoredText_of_slash

theorem ofVariables_toVariables_of_large
    : Configuration.validate
          { supervisorPath := some "/opt/1.0", groupRoot := some "/sys/fs/cgroup/own",
            maxParallel := 9223372036854776833, shutdownMillis := 18446744073709551615 }
        = .ok ()
      ∧ ofVariables (toVariables
          { supervisorPath := some "/opt/1.0", groupRoot := some "/sys/fs/cgroup/own",
            maxParallel := 9223372036854776833, shutdownMillis := 18446744073709551615 })
        = .ok
          { supervisorPath := some "/opt/1.0", groupRoot := some "/sys/fs/cgroup/own",
            maxParallel := 9223372036854777856, shutdownMillis := 18446744073709551615 } := by
  have hvalid : Configuration.validate
      { supervisorPath := some "/opt/1.0", groupRoot := some "/sys/fs/cgroup/own",
        maxParallel := 9223372036854776833, shutdownMillis := 18446744073709551615 }
      = .ok () := by
    rw [validate_eq_ok_iff]
    decide
  refine ⟨hvalid, ?_⟩
  rw [(ofVariables_toVariables hvalid).1, Except.ok.injEq]
  decide

-- A path that is a number in another spelling, and a number that has too many bits, change.
theorem not_forall_ofVariables_toVariables_eq
    : ¬ ∀ c : Configuration, c.validate = .ok () → ofVariables c.toVariables = .ok c := by
  intro h
  have hvalid : Configuration.validate
      { supervisorPath := some "1.0", shutdownMillis := 9223372036854775809 } = .ok () := by
    rw [validate_eq_ok_iff]
    decide
  have hsame := congrArg Except.toOption (h _ hvalid)
  revert hsame
  decide +kernel

end Configuration

end Enclosure
