import Enclosure.Proofs.CommandLine.Plan
import Enclosure.Proofs.CommandLine.Steps
import Mathlib.Data.List.TakeWhile

/-!
This module contains what bindings allow: which texts are bindings, and what is mounted for them.
Nothing may be written or executed that has not been asked for.
-/

namespace Enclosure

theorem split_eq_splitOnP (p : α → Bool) (as : List α) : split p as = as.splitOnP p := by
  induction as with
  | nil => rfl
  | cons a as ih =>
    rw [List.splitOnP_cons_eq_if_modifyHead, split, ih]
    split
    . rfl
    . split
      . next h =>
        rw [h]
        rfl
      . next h => exact absurd (ih.trans h) (split_ne_nil p as)

namespace CommandLine

namespace Binding

def parts (spec : String) : List String :=
  (spec.toList.splitOn ':').map String.ofList

theorem map_split_eq_parts (spec : String)
    : (split (· = ':') spec.toList).map String.ofList = parts spec := by
  rw [split_eq_splitOnP, parts, List.splitOn_eq_splitOnP]
  rfl

def IsRight (word : String) : Prop :=
  word = "rw" ∨ word = "exec"

theorem foldlM_allow_eq_ok_iff {words : List String} {b b' : Binding}
    : words.foldlM allow b = .ok b'
        ↔ (∀ word ∈ words, IsRight word)
          ∧ b' = { b with
              isWritable := b.isWritable || decide ("rw" ∈ words)
              isExecutable := b.isExecutable || decide ("exec" ∈ words) } := by
  induction words generalizing b with
  | nil =>
    change Except.ok b = .ok b' ↔ _
    simp [eq_comm]
  | cons word words ih =>
    rw [List.foldlM_cons, List.forall_mem_cons]
    unfold allow IsRight
    by_cases hrw : word = "rw"
    . subst hrw
      rw [if_pos rfl]
      change words.foldlM allow _ = _ ↔ _
      rw [ih]
      simp [IsRight]
    . rw [if_neg hrw]
      by_cases hexec : word = "exec"
      . subst hexec
        rw [if_pos rfl]
        change words.foldlM allow _ = _ ↔ _
        rw [ih]
        simp [IsRight]
      . rw [if_neg hexec]
        change Except.error _ = Except.ok _ ↔ _
        simp [hrw, hexec]

theorem parse_eq_ok_iff {spec : String} {b : Binding}
    : parse spec = .ok b
        ↔ ∃ source destination words,
          parts spec = source :: destination :: words ∧ (∀ word ∈ words, IsRight word)
            ∧ b = { source, destination, isWritable := decide ("rw" ∈ words),
                    isExecutable := decide ("exec" ∈ words) } := by
  unfold parse
  rw [map_split_eq_parts]
  split
  . next source destination words hparts =>
    rw [foldlM_allow_eq_ok_iff]
    simp only [hparts, Bool.false_or]
    constructor
    . intro h
      exact ⟨source, destination, words, rfl, h⟩
    . rintro ⟨_, _, _, ⟨⟩, h⟩
      exact h
  . next hparts =>
    simp only [reduceCtorEq, false_iff]
    rintro ⟨source, destination, words, h, -⟩
    exact hparts _ _ _ h

def bindAt (b : Binding) (path : String) : Bind where
  source := b.source
  dest := path
  recursive := true
  readOnly := !b.isWritable
  noExec := !b.isExecutable

-- The bind mount that a text asks for if its destination stands behind some path: without leave,
-- nothing may be written or executed there.
def Asks (front spec : String) (m : Bind) : Prop :=
  ∃ source destination words,
    parts spec = source :: destination :: words
      ∧ m = { source, dest := front ++ destination, recursive := true,
              readOnly := decide ("rw" ∉ words), noExec := decide ("exec" ∉ words),
              symlinkNofollow := false }

theorem asks_of_parse {spec : String} {b : Binding} (h : parse spec = .ok b) (front : String)
    : Asks front spec (b.bindAt (front ++ b.destination)) := by
  obtain ⟨source, destination, words, hparts, -, rfl⟩ := parse_eq_ok_iff.mp h
  refine ⟨source, destination, words, hparts, ?_⟩
  simp [bindAt]

theorem forall₂_asks {specs : List String} {bindings : List Binding}
    (h : specs.mapM parse = .ok bindings) (front : String)
    : List.Forall₂ (Asks front) specs (bindings.map fun b => b.bindAt (front ++ b.destination))
    := by
  rw [List.forall₂_map_right_iff]
  exact (forall₂_of_mapM_eq_ok h).imp fun _ _ hparse => asks_of_parse hparse front

end Binding

def Plan.binds (plan : Plan) : List Bind :=
  plan.mounts.filterMap MountOp.bind?

def IsTrimmed (root r : String) : Prop :=
  r.toList.getLast? ≠ some '/' ∧ ∃ n, root.toList = r.toList ++ List.replicate n '/'

theorem isTrimmed_trimSlashes (root : String) : IsTrimmed root (Path.trimSlashes root) := by
  unfold IsTrimmed Path.trimSlashes
  rw [String.toList_ofList, List.getLast?_reverse]
  constructor
  . intro h
    have hslash := List.head?_dropWhile_not (· = '/') root.toList.reverse
    rw [h] at hslash
    simp at hslash
  . have hslashes := List.eq_replicate_of_mem (a := '/')
      fun c (hc : c ∈ root.toList.reverse.takeWhile (· = '/')) => by
        simpa using List.mem_takeWhile_imp hc
    refine ⟨(root.toList.reverse.takeWhile (· = '/')).length, ?_⟩
    rw [← List.reverse_replicate, ← hslashes, ← List.reverse_append,
      List.takeWhile_append_dropWhile, List.reverse_reverse]

variable {σ : Type} [FileSystem σ] [StableFileSystem σ] {bindings : List Binding} {s : σ}

theorem filterMap_steps (root : String) (p : MountPoint)
    : (p.steps root).filterMap MountOp.bind? = (p.mount (root ++ p.tail)).bind?.toList := by
  unfold MountPoint.steps MountPoint.creation
  cases p.isDirectory with
  | true => rfl
  | false => rfl

omit [StableFileSystem σ] in
theorem binds_of_plan_none {plan : Plan}
    (h : (plan? none bindings s).1 = some plan)
    : plan.binds = bindings.map fun b => b.bindAt b.destination := by
  cases h
  unfold Plan.binds
  rw [List.filterMap_map]
  exact congrFun List.filterMap_eq_map bindings

theorem binds_of_plan_some {root : String} {plan : Plan}
    (h : (plan? (some root) bindings s).1 = some plan)
    : plan.newRoot = some (Path.trimSlashes root)
        ∧ plan.binds
          = (MountPoint.existing s).map
                (fun directory =>
                  { source := directory, dest := Path.trimSlashes root ++ directory })
              ++ bindings.map fun b => b.bindAt (Path.trimSlashes root ++ b.destination) := by
  obtain ⟨-, rfl⟩ := plan?_eq_some_iff.mp h
  refine ⟨rfl, ?_⟩
  change List.filterMap _ (_ :: _) = _
  rw [List.filterMap_cons_none rfl, List.filterMap_flatMap]
  simp only [filterMap_steps, MountPoint.all, List.flatMap_append, List.flatMap_map]
  rw [List.map_eq_flatMap, List.map_eq_flatMap]
  exact List.append_nil _

/-- A text is a binding exactly if something stands on both sides of a colon and only known rights
follow. A plan binds the system directories that exist, if it has a root, and then what has been
asked for, in this order and with no more rights than that. -/
theorem binds_as_asked
    : (∀ spec,
          (∃ b, Binding.parse spec = .ok b)
            ↔ ∃ source destination words,
              Binding.parts spec = source :: destination :: words
                ∧ ∀ word ∈ words, word = "rw" ∨ word = "exec")
        ∧ (∀ spec b, Binding.parse spec = .ok b →
            ∃ words,
              Binding.parts spec = b.source :: b.destination :: words
                ∧ (b.isWritable ↔ "rw" ∈ words) ∧ (b.isExecutable ↔ "exec" ∈ words))
        ∧ ∀ specs bindings (s : σ) plan, specs.mapM Binding.parse = .ok bindings →
          ((plan? none bindings s).1 = some plan →
              List.Forall₂ (Binding.Asks "") specs plan.binds)
            ∧ ∀ root, (plan? (some root) bindings s).1 = some plan →
              ∃ r asked,
                plan.newRoot = some r ∧ IsTrimmed root r
                  ∧ plan.binds
                    = (systemDirectories.filter fun d => (FileSystem.isDirectory d s).1).map
                          (fun d => { source := d, dest := r ++ d, recursive := true,
                                      readOnly := true, noExec := true })
                        ++ asked
                  ∧ List.Forall₂ (Binding.Asks r) specs asked := by
  refine ⟨fun spec => ?_, fun spec b h => ?_, fun specs bindings s plan hspecs => ⟨?_, ?_⟩⟩
  . simp only [Binding.parse_eq_ok_iff]
    constructor
    . rintro ⟨b, source, destination, words, hparts, hwords, -⟩
      exact ⟨source, destination, words, hparts, hwords⟩
    . rintro ⟨source, destination, words, hparts, hwords⟩
      exact ⟨_, source, destination, words, hparts, hwords, rfl⟩
  . obtain ⟨source, destination, words, hparts, -, rfl⟩ := Binding.parse_eq_ok_iff.mp h
    exact ⟨words, hparts, decide_eq_true_iff, decide_eq_true_iff⟩
  . intro hplan
    have hasks := Binding.forall₂_asks hspecs ""
    simp only [String.empty_append] at hasks
    rw [binds_of_plan_none hplan]
    exact hasks
  . intro root hplan
    obtain ⟨hroot, hbinds⟩ := binds_of_plan_some hplan
    exact ⟨Path.trimSlashes root, _, hroot, isTrimmed_trimSlashes root, hbinds,
      Binding.forall₂_asks hspecs (Path.trimSlashes root)⟩

def withBin : FileTree where
  entries := [(["bin"], .directory 0o755), (["src"], .directory 0o755)]

theorem binds_as_asked_of_withBin
    : ∃ plan,
        ["/src:/a:rw:rw", "/dev/null:/n:exec"].mapM Binding.parse
            = .ok [{ source := "/src", destination := "/a", isWritable := true },
                    { source := "/dev/null", destination := "/n", isExecutable := true }]
          ∧ (plan? (some "/r//") [{ source := "/src", destination := "/a", isWritable := true },
              { source := "/dev/null", destination := "/n", isExecutable := true }] withBin).1
            = some plan
          ∧ ∃ asked,
            plan.binds = { source := "/bin", dest := "/r/bin" } :: asked
              ∧ List.Forall₂ (Binding.Asks "/r") ["/src:/a:rw:rw", "/dev/null:/n:exec"] asked := by
  have hspecs : ["/src:/a:rw:rw", "/dev/null:/n:exec"].mapM Binding.parse
      = .ok [{ source := "/src", destination := "/a", isWritable := true },
              { source := "/dev/null", destination := "/n", isExecutable := true }] := rfl
  obtain ⟨-, -, hplans⟩ := @binds_as_asked FileTree _ _
  refine ⟨_, hspecs, rfl, ?_⟩
  obtain ⟨r, asked, hroot, -, hbinds, hasked⟩ := (hplans _ _ withBin _ hspecs).2 "/r//" rfl
  obtain rfl : "/r" = r := Option.some.inj hroot
  exact ⟨asked, hbinds, hasked⟩

example : ((plan? (some "//") []).run ({} : FileTree)).1 = none := by
  decide +kernel

end CommandLine

end Enclosure
