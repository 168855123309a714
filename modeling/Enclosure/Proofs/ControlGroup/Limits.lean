import Enclosure.ControlGroup.Leaf
import Enclosure.Proofs.FileSystem
import Enclosure.Proofs.FileSystem.Recorded
import Enclosure.Proofs.Text.Words

/-!
This module contains the theory of the limits of a leaf: no leaf is handed out before each of its
limits has been written, whatever fails.
-/

namespace Enclosure

namespace ControlGroup

structure LimitFile where
  name : String
  content : String
  isOptional : Bool := false

namespace LimitFile

def outcome (s : LimitFile) (path : String) : Except IoFault Unit → Except GroupFault Unit
  | .ok () => .ok ()
  | .error e => if s.isOptional && e.isNotFound then .ok () else .error (.io "write" path e)

theorem outcome_eq_ok_iff {s : LimitFile} {path : String} {r : Except IoFault Unit}
    : s.outcome path r = .ok ()
        ↔ r = .ok () ∨ s.isOptional ∧ ∃ e, r = .error e ∧ e.isNotFound := by
  cases r with
  | ok => simp [outcome]
  | error e => simp [outcome]

theorem outcome_eq_error_iff {s : LimitFile} {path : String} {r : Except IoFault Unit}
    {f : GroupFault}
    : s.outcome path r = .error f
        ↔ ∃ e, r = .error e ∧ f = .io "write" path e ∧ (s.isOptional → ¬ e.isNotFound) := by
  cases r with
  | ok => simp [outcome]
  | error e =>
    rw [outcome]
    split
    . next hskipped =>
      rw [Bool.and_eq_true] at hskipped
      simp only [reduceCtorEq, Except.error.injEq, false_iff]
      rintro ⟨_, rfl, -, hneeded⟩
      exact hneeded hskipped.1 hskipped.2
    . next hskipped =>
      rw [Bool.and_eq_true, not_and] at hskipped
      rw [Except.error.injEq]
      constructor
      . rintro rfl
        exact ⟨e, rfl, rfl, hskipped⟩
      . rintro ⟨_, ⟨⟩, hf, -⟩
        exact hf.symm

end LimitFile

end ControlGroup

open ControlGroup in
def GroupLimits.files (limits : GroupLimits) : List LimitFile :=
  [{ name := "pids.max", content := Leaf.limitText (limits.processes.map UInt32.toNat) },
    { name := "memory.max", content := Leaf.limitText (limits.memory.map UInt64.toNat) }]
    ++ (if limits.memory.isSome then
        [{ name := "memory.swap.max", content := "0", isOptional := true }]
      else [])
    ++ limits.bandwidth.toList.map
        (fun b => { name := "cpu.max", content := s!"{b.quota} {b.period}" })
    ++ [{ name := "cgroup.pressure", content := "0", isOptional := true }]

namespace ControlGroup

open Recorded (Records)

variable {σ : Type} [FileSystem σ]

namespace Leaf

def put (l : Leaf) (s : LimitFile) : GroupM σ Unit :=
  if s.isOptional then writeOptional (l.file s.name) s.content
  else writeFile (l.file s.name) s.content

def putAll (l : Leaf) : List LimitFile → GroupM σ Unit
  | [] => return
  | s :: rest => do
    l.put s
    l.putAll rest

theorem applyLimits_eq (l : Leaf) (limits : GroupLimits)
    : (l.applyLimits limits : GroupM σ Unit) = l.putAll limits.files := by
  rcases limits with ⟨processes, _ | memory, _ | bandwidth⟩
  . simp [applyLimits, GroupLimits.files, putAll, put]
  . simp [applyLimits, GroupLimits.files, putAll, put]
  . simp [applyLimits, GroupLimits.files, putAll, put]
  . simp [applyLimits, GroupLimits.files, putAll, put]

variable (l : Leaf)

-- The files are written one after the other, up to the first that is refused.
inductive Applies : List LimitFile → List FileCall → Except GroupFault Unit → Prop where
  | done : Applies [] [] (.ok ())
  | accepted (s : LimitFile) (r : Except IoFault Unit) : s.outcome (l.file s.name) r = .ok () →
      Applies rest calls result →
      Applies (s :: rest) (.write (l.file s.name) s.content r :: calls) result
  | refused (s : LimitFile) (r : Except IoFault Unit) : s.outcome (l.file s.name) r = .error f →
      Applies (s :: rest) [.write (l.file s.name) s.content r] (.error f)

theorem records_put (s : LimitFile)
    : Records
        (fun calls result =>
          ∃ r, calls = [.write (l.file s.name) s.content r] ∧ result = s.outcome (l.file s.name) r)
        (l.put s : GroupM (Recorded σ) Unit).run (l.put s : GroupM σ Unit).run := by
  unfold put
  split
  . next hoptional =>
    refine .run_lift_bind (.record _ _) fun r => ?_
    cases r with
    | ok =>
      apply Records.pure
      rintro before rfl
      exact ⟨.ok (), rfl, rfl⟩
    | error e =>
      dsimp only
      cases hfound : e.isNotFound with
      | true =>
        apply Records.pure
        rintro before rfl
        refine ⟨.error e, rfl, ?_⟩
        simp [LimitFile.outcome, hoptional, hfound]
      | false =>
        apply Records.pure
        rintro before rfl
        refine ⟨.error e, rfl, ?_⟩
        simp [LimitFile.outcome, hfound]
  . next hoptional =>
    refine .run_lift_bind (.record _ _) fun r => ?_
    cases r with
    | ok =>
      apply Records.pure
      rintro before rfl
      exact ⟨.ok (), rfl, rfl⟩
    | error e =>
      apply Records.pure
      rintro before rfl
      refine ⟨.error e, rfl, ?_⟩
      simp [LimitFile.outcome, hoptional]

theorem records_putAll (files : List LimitFile)
    : Records (l.Applies files) (l.putAll files : GroupM (Recorded σ) Unit).run
        (l.putAll files : GroupM σ Unit).run := by
  induction files with
  | nil => exact .pure .done
  | cons s rest ih =>
    refine .run_bind (l.records_put s) ?_ fun _ => ih.weaken ?_
    . rintro calls f ⟨r, rfl, hr⟩
      exact .refused s r hr.symm
    . rintro calls result hrest before ⟨r, rfl, hr⟩
      exact .accepted s r hr.symm hrest

def GivesUp (path : String) (c : FileCall) : Prop :=
  (∃ r, c = .write (Path.join path "cgroup.kill") "1" r) ∨ ∃ r, c = .removeDirectory path r

theorem records_tryRemove
    : Records (fun calls x => (∀ c ∈ calls, GivesUp l.path c) ∧ x.2.path = l.path)
        (l.tryRemove : StateM (Recorded σ) _) (l.tryRemove : StateM σ _) := by
  unfold tryRemove
  cases hremoved : l.removed with
  | true =>
    rw [if_pos rfl, if_pos rfl]
    exact .pure ⟨by simp, rfl⟩
  | false =>
    rw [if_neg (by decide), if_neg (by decide)]
    refine .bind (.record _ _) fun r => ?_
    have hcall : ∀ c ∈ [FileCall.removeDirectory l.path r], GivesUp l.path c := by
      rw [List.forall_mem_singleton]
      exact .inr ⟨r, rfl⟩
    cases r with
    | ok =>
      apply Records.pure
      rintro before rfl
      exact ⟨hcall, rfl⟩
    | error e =>
      dsimp only
      split
      . apply Records.pure
        rintro before rfl
        exact ⟨hcall, rfl⟩
      . apply Records.pure
        rintro before rfl
        exact ⟨hcall, rfl⟩

theorem records_removeWithin (n : Nat)
    : Records (fun calls _ => ∀ c ∈ calls, GivesUp l.path c)
        (l.removeWithin n : StateM (Recorded σ) Unit) (l.removeWithin n : StateM σ Unit) := by
  induction n generalizing l with
  | zero => exact .pure (by simp)
  | succ n ih =>
    refine .bind l.records_tryRemove fun x => ?_
    obtain ⟨result, l'⟩ := x
    cases result with
    | busy =>
      refine (ih l').weaken fun calls _ hcalls before ⟨hbefore, hpath⟩ => ?_
      rw [hpath] at hcalls
      exact List.forall_mem_append.mpr ⟨hbefore, hcalls⟩
    | removed =>
      apply Records.pure
      intro before hbefore
      rw [List.append_nil]
      exact hbefore.1
    | fault =>
      apply Records.pure
      intro before hbefore
      rw [List.append_nil]
      exact hbefore.1

theorem records_drop
    : Records (fun calls _ => ∀ c ∈ calls, GivesUp l.path c) (l.drop : StateM (Recorded σ) Unit)
        (l.drop : StateM σ Unit) := by
  unfold drop
  cases l.removed with
  | true => exact .pure (by simp)
  | false =>
    refine .bind (l.records_put { name := "cgroup.kill", content := "1" }) fun _ => ?_
    refine (l.records_removeWithin 100).weaken fun calls _ hcalls before ⟨r, hbefore, _⟩ => ?_
    rw [hbefore, List.singleton_append, List.forall_mem_cons]
    exact ⟨.inl ⟨r, rfl⟩, hcalls⟩

end Leaf

namespace Tree

/-- What is done when a leaf is asked for: its directory is made, then its files are written, and
if one of them is refused, the leaf is given up. -/
inductive Creates (l : Leaf) (limits : GroupLimits)
    : List FileCall → Except GroupFault Leaf → Prop where
  | unmade (e : IoFault) :
      Creates l limits [.makeDirectory l.path 0o777 (.error e)] (.error (.io "mkdir" l.path e))
  | abandoned : l.Applies limits.files applied (.error f) →
      (∀ c ∈ last, Leaf.GivesUp l.path c) →
      Creates l limits (.makeDirectory l.path 0o777 (.ok ()) :: applied ++ last) (.error f)
  | made : l.Applies limits.files applied (.ok ()) →
      Creates l limits (.makeDirectory l.path 0o777 (.ok ()) :: applied) (.ok l)

theorem records_createLeaf (t : Tree) (limits : GroupLimits)
    : Records
        (fun calls x =>
          x.2 = { t with nextLeaf := t.nextLeaf + 1 }
            ∧ Creates { path := t.leafPath t.nextLeaf } limits calls x.1)
        (t.createLeaf limits : StateM (Recorded σ) _) (t.createLeaf limits : StateM σ _) := by
  unfold createLeaf
  dsimp only
  refine .bind (.record _ _) fun r => ?_
  cases r with
  | error e =>
    apply Records.pure
    rintro before rfl
    exact ⟨rfl, .unmade e⟩
  | ok =>
    dsimp only
    rw [Leaf.applyLimits_eq, Leaf.applyLimits_eq]
    refine .bind (Leaf.records_putAll _ _) fun result => ?_
    cases result with
    | ok =>
      apply Records.pure
      rintro applied happlied before rfl
      rw [List.append_nil]
      exact ⟨rfl, .made happlied⟩
    | error f =>
      refine .bind (Leaf.records_drop _) fun _ => ?_
      apply Records.pure
      rintro last hlast applied happlied before rfl
      rw [List.append_nil]
      have habandoned := Creates.abandoned happlied hlast
      exact ⟨rfl, habandoned⟩

end Tree

namespace Leaf

variable {l : Leaf} {limits : GroupLimits}

theorem Applies.forall_of_ok (h : l.Applies files calls result) (hok : result = .ok ())
    : ∀ s ∈ files, ∃ r,
        .write (l.file s.name) s.content r ∈ calls ∧ s.outcome (l.file s.name) r = .ok () := by
  induction h with
  | done => simp
  | accepted s r hr _ ih =>
    rw [List.forall_mem_cons]
    refine ⟨⟨r, by simp, hr⟩, fun s' hs' => ?_⟩
    obtain ⟨r', hmem, hr'⟩ := ih hok s' hs'
    exact ⟨r', List.mem_cons_of_mem _ hmem, hr'⟩
  | refused => contradiction

theorem Applies.exists_of_error (h : l.Applies files calls result) (herror : result = .error f)
    : ∃ s ∈ files, ∃ r,
        .write (l.file s.name) s.content r ∈ calls ∧ s.outcome (l.file s.name) r = .error f := by
  induction h with
  | done => contradiction
  | accepted s r hr _ ih =>
    obtain ⟨s', hs', r', hmem, hr'⟩ := ih herror
    exact ⟨s', List.mem_cons_of_mem _ hs', r', List.mem_cons_of_mem _ hmem, hr'⟩
  | refused s r hr =>
    cases herror
    exact ⟨s, by simp, r, by simp, hr⟩

theorem Applies.exists_of_mem (h : l.Applies files calls result)
    : ∀ c ∈ calls, ∃ s ∈ files, ∃ r,
        c = .write (l.file s.name) s.content r
          ∧ ∀ f, s.outcome (l.file s.name) r = .error f → result = .error f := by
  induction h with
  | done => simp
  | accepted s r hr _ ih =>
    rw [List.forall_mem_cons]
    refine ⟨⟨s, by simp, r, rfl, fun f hf => ?_⟩, fun c hc => ?_⟩
    . rw [hr] at hf
      contradiction
    . obtain ⟨s', hs', rest⟩ := ih c hc
      exact ⟨s', List.mem_cons_of_mem _ hs', rest⟩
  | refused s r hr =>
    rw [List.forall_mem_singleton]
    refine ⟨s, by simp, r, rfl, fun f hf => ?_⟩
    rw [← hr, hf]

theorem file_inj {name name' : String} (h : Path.IsName name) (h' : Path.IsName name')
    (heq : l.file name = l.file name')
    : name = name' := by
  have hplace := congrArg FileTree.place heq
  unfold file at hplace
  rw [FileTree.place_join _ h, FileTree.place_join _ h'] at hplace
  simpa using hplace

theorem forall_files_iff {P : LimitFile → Prop}
    : (∀ s ∈ limits.files, P s)
        ↔ P { name := "pids.max", content := limitText (limits.processes.map UInt32.toNat) }
          ∧ P { name := "memory.max", content := limitText (limits.memory.map UInt64.toNat) }
          ∧ (limits.memory.isSome →
              P { name := "memory.swap.max", content := "0", isOptional := true })
          ∧ (∀ b ∈ limits.bandwidth,
              P { name := "cpu.max", content := s!"{b.quota} {b.period}" })
          ∧ P { name := "cgroup.pressure", content := "0", isOptional := true } := by
  unfold GroupLimits.files
  rcases limits with ⟨processes, _ | memory, _ | bandwidth⟩
  . simp
  . simp
  . simp
  . simp

end Leaf

def WrittenOnly (calls : List FileCall) (path text : String) : Prop :=
  .write path text (.ok ()) ∈ calls ∧ ∀ content r, .write path content r ∈ calls → content = text

/-- Every limit has been written to its file, and is what its file was written last. -/
structure Leaf.InForce (l : Leaf) (limits : GroupLimits) (calls : List FileCall) : Prop where
  processes :
    WrittenOnly calls (l.file "pids.max") (limitText (limits.processes.map UInt32.toNat))
  memory : WrittenOnly calls (l.file "memory.max") (limitText (limits.memory.map UInt64.toNat))
  swap : limits.memory.isSome →
    (∃ r, .write (l.file "memory.swap.max") "0" r ∈ calls)
      ∧ ∀ content r, .write (l.file "memory.swap.max") content r ∈ calls →
          content = "0" ∧ (r = .ok () ∨ ∃ e, r = .error e ∧ e.isNotFound)
  bandwidth : ∀ b ∈ limits.bandwidth,
    WrittenOnly calls (l.file "cpu.max") s!"{b.quota} {b.period}"

def neededFiles : List String :=
  ["pids.max", "memory.max", "cpu.max"]

def optionalFiles : List String :=
  ["memory.swap.max", "cgroup.pressure"]

theorem not_mem_optionalFiles : ∀ name ∈ neededFiles, name ∉ optionalFiles := by
  decide

-- A call that has to succeed but does not, and the fault that it is told as. Writing a file that
-- the system may lack has to succeed unless there is no such file.
inductive Leaf.Refuses (l : Leaf) : FileCall → GroupFault → Prop where
  | directory (mode : Nat) (e : IoFault) :
      l.Refuses (.makeDirectory l.path mode (.error e)) (.io "mkdir" l.path e)
  | needed (name content : String) (e : IoFault) : name ∈ neededFiles →
      l.Refuses (.write (l.file name) content (.error e)) (.io "write" (l.file name) e)
  | optional (name content : String) (e : IoFault) : name ∈ optionalFiles → ¬ e.isNotFound →
      l.Refuses (.write (l.file name) content (.error e)) (.io "write" (l.file name) e)

namespace Leaf

variable {l : Leaf} {limits : GroupLimits}

theorem name_mem_of_mem_files
    : ∀ s ∈ limits.files, s.name ∈ if s.isOptional then optionalFiles else neededFiles := by
  rw [forall_files_iff]
  simp [optionalFiles, neededFiles]

theorem refuses_of_outcome (hs : s ∈ limits.files) (h : s.outcome (l.file s.name) r = .error f)
    : l.Refuses (.write (l.file s.name) s.content r) f := by
  obtain ⟨e, rfl, rfl, hneeded⟩ := LimitFile.outcome_eq_error_iff.mp h
  have hname := name_mem_of_mem_files s hs
  split at hname
  . next hoptional => exact .optional _ _ e hname (hneeded hoptional)
  . exact .needed _ _ e hname

theorem isName_of_mem : ∀ name ∈ neededFiles ++ optionalFiles, Path.IsName name := by
  decide

end Leaf

namespace Tree

variable {l : Leaf} {limits : GroupLimits}

theorem Creates.file_of_write (h : Creates l limits calls result)
    (hname : name ∈ neededFiles ++ optionalFiles) (hmem : .write (l.file name) content r ∈ calls)
    : ∃ s ∈ limits.files, s.name = name ∧ s.content = content
        ∧ ∀ f, s.outcome (l.file name) r = .error f → result = .error f := by
  have hisName := Leaf.isName_of_mem name hname
  have happlied {applied} {result : Except GroupFault Unit}
      (happlies : l.Applies limits.files applied result)
      (hmem : .write (l.file name) content r ∈ applied)
      : ∃ s ∈ limits.files, s.name = name ∧ s.content = content
          ∧ ∀ f, s.outcome (l.file name) r = .error f → result = .error f := by
    obtain ⟨s, hs, r', heq, hresult⟩ := happlies.exists_of_mem _ hmem
    -- The calls tell only the paths, but different names below one directory are different paths.
    obtain ⟨hfile, rfl, rfl⟩ := FileCall.write.inj heq
    have hsname := Leaf.isName_of_mem s.name <| by
      have hlisted := Leaf.name_mem_of_mem_files s hs
      split at hlisted
      . exact List.mem_append_right _ hlisted
      . exact List.mem_append_left _ hlisted
    obtain rfl := Leaf.file_inj hisName hsname hfile
    exact ⟨s, hs, rfl, rfl, hresult⟩
  cases h with
  | unmade => simp at hmem
  | abandoned happlies hlast =>
    simp only [List.cons_append, List.mem_cons, reduceCtorEq, List.mem_append, false_or] at hmem
    cases hmem with
    | inl hmem =>
      obtain ⟨s, hs, hsname, hcontent, hresult⟩ := happlied happlies hmem
      refine ⟨s, hs, hsname, hcontent, fun f hf => ?_⟩
      rw [Except.error.inj (hresult f hf)]
    | inr hmem =>
      -- Giving the leaf up writes too, but to none of these files.
      exfalso
      cases hlast _ hmem with
      | inl hkill =>
        obtain ⟨_, heq⟩ := hkill
        have hfile := (FileCall.write.inj heq).1
        have hkill := Leaf.file_inj hisName (by decide) hfile
        rw [hkill] at hname
        exact absurd hname (by decide)
      | inr hremoved =>
        obtain ⟨_, heq⟩ := hremoved
        contradiction
  | made happlies =>
    simp only [List.mem_cons, reduceCtorEq, false_or] at hmem
    obtain ⟨s, hs, hsname, hcontent, hresult⟩ := happlied happlies hmem
    refine ⟨s, hs, hsname, hcontent, fun f hf => ?_⟩
    cases hresult f hf

theorem Creates.unmade_of_mem (h : Creates l limits calls result)
    (hmem : .makeDirectory l.path mode (.error e) ∈ calls)
    : result = .error (.io "mkdir" l.path e) := by
  have happlied {applied} {result : Except GroupFault Unit}
      (happlies : l.Applies limits.files applied result)
      : FileCall.makeDirectory l.path mode (.error e) ∉ applied := by
    intro hmem
    obtain ⟨_, _, _, heq, _⟩ := happlies.exists_of_mem _ hmem
    contradiction
  cases h with
  | unmade =>
    obtain ⟨-, -, ⟨⟩⟩ := FileCall.makeDirectory.inj (List.mem_singleton.mp hmem)
    rfl
  | abandoned happlies hlast =>
    simp only [List.cons_append, List.mem_cons, FileCall.makeDirectory.injEq, reduceCtorEq,
      and_false, List.mem_append, happlied happlies, false_or] at hmem
    cases hlast _ hmem with
    | inl hkill =>
      obtain ⟨_, heq⟩ := hkill
      contradiction
    | inr hremoved =>
      obtain ⟨_, heq⟩ := hremoved
      contradiction
  | made happlies => simp [happlied happlies] at hmem

theorem Creates.error_iff (h : Creates l limits calls result)
    : result = .error f ↔ ∃ c ∈ calls, l.Refuses c f := by
  constructor
  . rintro rfl
    cases h with
    | unmade e => exact ⟨_, List.mem_singleton_self _, .directory _ e⟩
    | abandoned happlies hlast =>
      obtain ⟨s, hs, r, hmem, hr⟩ := happlies.exists_of_error rfl
      refine ⟨_, ?_, Leaf.refuses_of_outcome hs hr⟩
      apply List.mem_append_left
      exact List.mem_cons_of_mem _ hmem
  . rintro ⟨c, hmem, hrefuses⟩
    cases hrefuses with
    | directory mode e => exact h.unmade_of_mem hmem
    | needed name content e hname =>
      obtain ⟨s, hs, rfl, -, hresult⟩ := h.file_of_write (List.mem_append_left _ hname) hmem
      apply hresult
      refine LimitFile.outcome_eq_error_iff.mpr ⟨e, rfl, rfl, fun hoptional => ?_⟩
      have hlisted := Leaf.name_mem_of_mem_files s hs
      rw [if_pos hoptional] at hlisted
      exact absurd hlisted (not_mem_optionalFiles _ hname)
    | optional name content e hname hfound =>
      obtain ⟨s, hs, rfl, -, hresult⟩ := h.file_of_write (List.mem_append_right _ hname) hmem
      apply hresult
      exact LimitFile.outcome_eq_error_iff.mpr ⟨e, rfl, rfl, fun _ => hfound⟩

theorem Creates.content_eq (h : Creates l limits calls result)
    (hname : name ∈ neededFiles ++ optionalFiles)
    (hlisted : ∀ s ∈ limits.files, s.name = name → s.content = text)
    : ∀ content r, .write (l.file name) content r ∈ calls → content = text := by
  intro content r hmem
  obtain ⟨s, hs, hsname, rfl, -⟩ := h.file_of_write hname hmem
  exact hlisted s hs hsname

theorem Creates.writtenOnly (h : Creates l limits calls result)
    (hname : name ∈ neededFiles ++ optionalFiles)
    (hlisted : ∀ s ∈ limits.files, s.name = name → s.content = text)
    (hmem : .write (l.file name) text (.ok ()) ∈ calls)
    : WrittenOnly calls (l.file name) text :=
  ⟨hmem, h.content_eq hname hlisted⟩

theorem Creates.of_ok (h : Creates l limits calls (.ok l')) : l' = l ∧ l.InForce limits calls := by
  have hcreates := h
  cases h with
  | made happlies =>
    obtain ⟨hprocesses, hmemory, hswap, hbandwidth, -⟩ :=
      Leaf.forall_files_iff.mp (happlies.forall_of_ok rfl)
    simp only [LimitFile.outcome_eq_ok_iff, Bool.false_eq_true, false_and, or_false,
      exists_eq_right, true_and] at hprocesses hmemory hswap hbandwidth
    refine ⟨rfl, ?_, ?_, ?_, ?_⟩
    . apply hcreates.writtenOnly (by decide) _ (List.mem_cons_of_mem _ hprocesses)
      rw [Leaf.forall_files_iff]
      simp
    . apply hcreates.writtenOnly (by decide) _ (List.mem_cons_of_mem _ hmemory)
      rw [Leaf.forall_files_iff]
      simp
    . intro hsome
      obtain ⟨r, hmem, -⟩ := hswap hsome
      refine ⟨⟨r, List.mem_cons_of_mem _ hmem⟩, fun content r' hmem' => ?_⟩
      obtain ⟨s, hs, hname, rfl, hresult⟩ := hcreates.file_of_write (by decide) hmem'
      have hlisted : ∀ s ∈ limits.files, s.name = "memory.swap.max" → s.content = "0" := by
        rw [Leaf.forall_files_iff]
        simp
      refine ⟨hlisted s hs hname, ?_⟩
      -- The leaf has been handed out, so what writing the file came to was no fault.
      cases houtcome : s.outcome (l.file "memory.swap.max") r' with
      | ok => exact (LimitFile.outcome_eq_ok_iff.mp houtcome).imp_right And.right
      | error f => cases hresult f houtcome
    . intro b hb
      apply hcreates.writtenOnly (by decide) _ (List.mem_cons_of_mem _ (hbandwidth b hb))
      rw [Leaf.forall_files_iff, Option.mem_def.mp hb]
      simp

theorem Creates.isSome_of_write (h : Creates l limits calls result)
    (hmem : .write (l.file name) content r ∈ calls)
    : (name = "cpu.max" → limits.bandwidth.isSome)
        ∧ (name = "memory.swap.max" → limits.memory.isSome) := by
  have hpresent
      : ∀ s ∈ limits.files, (s.name = "cpu.max" → limits.bandwidth.isSome)
          ∧ (s.name = "memory.swap.max" → limits.memory.isSome) := by
    rw [Leaf.forall_files_iff]
    simp +contextual
  constructor
  . rintro rfl
    obtain ⟨s, hs, hname, -⟩ := h.file_of_write (by decide) hmem
    exact (hpresent s hs).1 hname
  . rintro rfl
    obtain ⟨s, hs, hname, -⟩ := h.file_of_write (by decide) hmem
    exact (hpresent s hs).2 hname

end Tree

theorem natural?_limitText (n : Nat) : Text.natural? (Leaf.limitText (some n)).toList = some n := by
  change Text.natural? (toString n).toList = some n
  rw [Text.toList_toString, Text.natural?_toDigits]

theorem words_numbers (m n : Nat)
    : (Text.words s!"{m} {n}".toList).map Text.natural? = [some m, some n] := by
  have htext : s!"{m} {n}".toList = Nat.toDigits 10 m ++ ' ' :: Nat.toDigits 10 n := by
    simp only [String.toList_append, Text.toList_toString, List.append_assoc]
    rfl
  rw [htext, Text.words_append_cons _ (by decide), Text.words_toDigits, Text.words_toDigits]
  simp

/-- A leaf is handed out only when each of its limits has been written, whatever calls fail: the
first failure that matters is told instead, and it names its file. Nothing is written for a limit
that is absent, and what is written reads as the numbers that have been asked for. -/
theorem Tree.limits_in_force (t : Tree) (limits : GroupLimits) (s : σ)
    : let leaf : Leaf := { path := t.leafPath t.nextLeaf }
      let t' : Tree := { t with nextLeaf := t.nextLeaf + 1 }
      ∃ result calls s',
        t.createLeaf limits s = ((result, t'), s')
          ∧ t.createLeaf limits ({ state := s } : Recorded σ)
              = ((result, t'), { state := s', calls })
          ∧ (∀ l, result = .ok l → l = leaf ∧ leaf.InForce limits calls)
          ∧ (∀ f, result = .error f ↔ ∃ c ∈ calls, leaf.Refuses c f)
          ∧ (∀ content r, .write (leaf.file "memory.swap.max") content r ∈ calls →
              limits.memory.isSome)
          ∧ (∀ content r, .write (leaf.file "cpu.max") content r ∈ calls → limits.bandwidth.isSome)
          ∧ (∀ n ∈ limits.processes,
              Text.natural? (Leaf.limitText (limits.processes.map UInt32.toNat)).toList
                = some n.toNat)
          ∧ (∀ n ∈ limits.memory,
              Text.natural? (Leaf.limitText (limits.memory.map UInt64.toNat)).toList
                = some n.toNat)
          ∧ ∀ b ∈ limits.bandwidth,
              (Text.words s!"{b.quota} {b.period}".toList).map Text.natural?
                = [some b.quota.toNat, some b.period.toNat] := by
  intro leaf t'
  obtain ⟨calls, hrecorded, ht, hcreates⟩ := t.records_createLeaf limits ({ state := s })
  rw [List.nil_append] at hrecorded
  rcases hrun : t.createLeaf limits s with ⟨⟨result, t''⟩, s'⟩
  dsimp only at hrecorded ht hcreates
  rw [hrun] at hrecorded ht hcreates
  dsimp only at ht hcreates
  subst ht
  refine ⟨result, calls, s', rfl, hrecorded, ?_, fun f => hcreates.error_iff, ?_, ?_, ?_, ?_, ?_⟩
  . rintro l rfl
    exact hcreates.of_ok
  . exact fun content r hmem => (hcreates.isSome_of_write hmem).2 rfl
  . exact fun content r hmem => (hcreates.isSome_of_write hmem).1 rfl
  . intro n hn
    rw [Option.mem_def.mp hn]
    apply natural?_limitText
  . intro n hn
    rw [Option.mem_def.mp hn]
    apply natural?_limitText
  . exact fun b _ => words_numbers b.quota.toNat b.period.toNat

end ControlGroup

end Enclosure
