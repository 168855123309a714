import Enclosure.Mount.Apply
import Enclosure.Proofs.ControlGroup.Effect
import Enclosure.Proofs.FileTree.Creation

/-!
This module contains the theory of the building of a file system: the steps are taken one after the
other up to the first that fails, and nothing that was there before is changed.
-/

namespace Enclosure

namespace MountOp

open FileTree

def creation? : MountOp → Option (List String × Entry)
  | directory m => some (place m.path, .directory (createdMode 0o1777 m.mode.toNat))
  | file m => some (place m.path, .file (createdMode 0o7777 m.mode.toNat) "")
  | _ => none

/-- The step can be taken, and it turns one tree into the other. Nothing can be mounted, so only
directories and files are made, where nothing is yet and the directories above are there. -/
def Takes (t t' : FileTree) : MountOp → Prop
  | directory m =>
    t.IsFree m.path
      ∧ t' = ⟨t.entries ++ [(place m.path, .directory (createdMode 0o1777 m.mode.toNat))]⟩
  | file m =>
    t.IsFree m.path ∧ m.path.toList.getLast? ≠ some '/'
      ∧ t' = ⟨t.entries ++ [(place m.path, .file (createdMode 0o7777 m.mode.toNat) "")]⟩
  | _ => False

def call : MountOp → String
  | directory m => s!"mkdir({Text.quote m.path})"
  | file m => s!"open({Text.quote m.path}, O_CREAT | O_EXCL)"
  | tmpfs m => s!"probing mount(tmpfs at {Text.quote m.path})"
  | proc m => s!"mount(proc at {Text.quote m.path})"
  | bind m => s!"open_tree({Text.quote m.source})"

-- The fault names the call of the step and its path. A path of a bind mount that is no path at
-- all is told before there is any call.
def IsNamedBy (op : MountOp) (f : SetupFault) : Prop :=
  (∃ e, f = .call op.call e)
    ∨ ∃ m, op = bind m
      ∧ ((Path.hasNul m.source
            ∧ f = .invalid s!"bind mount source {Text.quote m.source} contains NUL")
        ∨ Path.hasNul m.dest ∧ f = .invalid s!"bind mount dest {Text.quote m.dest} contains NUL")

variable {t t' : FileTree} {op : MountOp}

theorem Takes.creation (h : op.Takes t t')
    : ∃ entry,
        op.creation? = some entry ∧ t.get? entry.1 = none ∧ t' = ⟨t.entries ++ [entry]⟩ := by
  cases op with
  | directory m => exact ⟨_, rfl, h.1.nothing, h.2⟩
  | file m => exact ⟨_, rfl, h.1.nothing, h.2.2⟩
  | tmpfs | proc | bind => exact h.elim

theorem named_run (call : String) (a : StateM σ (Except IoFault α)) (s : σ)
    : (named call a).run s = match a s with
        | (.ok x, s') => (.ok x, s')
        | (.error e, s') => (.error (.ofIo call e), s') := by
  unfold named
  rw [ExceptT.run_lift_bind_apply]
  rcases a s with ⟨_ | _, s'⟩ <;> rfl

section Refused

variable (errno : MountCall → FileTree → Errno)

theorem mount_run (call kind path : String) (flags : Nat) (options : Option String) (t : FileTree)
    : ∃ e,
        (@mount FileTree (refuseMounts errno) call kind path flags options).run t
          = (.error (.call call e), t) := by
  unfold mount
  split
  . exact ⟨_, rfl⟩
  . exact ⟨_, rfl⟩

theorem mountBind_run (m : Bind) (t : FileTree)
    : ∃ f,
        (bind m).IsNamedBy f
          ∧ (@mountBind FileTree (refuseMounts errno) m).run t = (.error f, t) := by
  unfold mountBind
  by_cases hsource : Path.hasNul m.source
  . rw [if_pos hsource]
    exact ⟨_, .inr ⟨m, rfl, .inl ⟨hsource, rfl⟩⟩, rfl⟩
  . rw [if_neg hsource]
    by_cases hdest : Path.hasNul m.dest
    . rw [if_pos hdest]
      exact ⟨_, .inr ⟨m, rfl, .inr ⟨hdest, rfl⟩⟩, rfl⟩
    . rw [if_neg hdest]
      exact ⟨_, .inl ⟨_, rfl⟩, rfl⟩

theorem apply_cases (op : MountOp) (t : FileTree)
    : (∃ t',
          op.Takes t t' ∧ (@apply FileTree _ (refuseMounts errno) none op).run t = (.ok none, t'))
        ∨ (∀ t', ¬ op.Takes t t')
          ∧ ∃ f,
            op.IsNamedBy f
              ∧ (@apply FileTree _ (refuseMounts errno) none op).run t = (.error f, t) := by
  cases op with
  | directory m =>
    simp only [apply, Takes, ExceptT.run_bind_apply, named_run, StateM.bind_apply]
    simp only [← makeDirectory_eq_ok_iff]
    cases h : t.makeDirectory m.path m.mode.toNat with
    | ok t' =>
      rw [makeDirectory_apply, change_of_ok h]
      exact .inl ⟨t', rfl, rfl⟩
    | error e =>
      rw [makeDirectory_apply, change_of_error h]
      exact .inr ⟨nofun, _, .inl ⟨_, rfl⟩, rfl⟩
  | file m =>
    simp only [apply, Takes, ExceptT.run_bind_apply, named_run]
    simp only [← createFile_eq_ok_iff]
    cases h : t.createFile m.path m.mode.toNat with
    | ok t' =>
      rw [createFile_apply, change_of_ok h]
      exact .inl ⟨t', rfl, rfl⟩
    | error e =>
      rw [createFile_apply, change_of_error h]
      exact .inr ⟨nofun, _, .inl ⟨_, rfl⟩, rfl⟩
  | tmpfs m =>
    refine .inr ⟨fun _ h => h, ?_⟩
    obtain ⟨e, he⟩ := mount_run errno (tmpfs m).call "tmpfs" m.path (flags false true)
      (some "size=0,nr_inodes=2,mode=0755") t
    refine ⟨_, .inl ⟨e, rfl⟩, ?_⟩
    simp only [apply, probe, ExceptT.run_bind_apply]
    rw [show s!"probing mount(tmpfs at {Text.quote m.path})" = (tmpfs m).call from rfl, he]
  | proc m =>
    refine .inr ⟨fun _ h => h, ?_⟩
    obtain ⟨e, he⟩ := mount_run errno (proc m).call "proc" m.path (flags m.readOnly m.noExec) none t
    refine ⟨_, .inl ⟨e, rfl⟩, ?_⟩
    simp only [apply, ExceptT.run_bind_apply]
    rw [show s!"mount(proc at {Text.quote m.path})" = (proc m).call from rfl, he]
  | bind m =>
    obtain ⟨f, hf, hrun⟩ := mountBind_run errno m t
    refine .inr ⟨fun _ h => h, f, hf, ?_⟩
    simp only [apply, ExceptT.run_bind_apply]
    rw [hrun]

end Refused

/-- The steps are taken one after the other, each in the tree that the one before it has left. -/
inductive TakenInTurn : FileTree → List MountOp → FileTree → Prop where
  | nil (t : FileTree) : TakenInTurn t [] t
  | cons {t t' t'' : FileTree} {op : MountOp} {ops : List MountOp} : op.Takes t t' →
      TakenInTurn t' ops t'' → TakenInTurn t (op :: ops) t''

theorem TakenInTurn.entries {ops : List MountOp} (h : TakenInTurn t ops t')
    : t'.entries = t.entries ++ ops.filterMap creation? := by
  induction h with
  | nil => simp
  | cons htakes _ ih =>
    obtain ⟨entry, hentry, -, rfl⟩ := htakes.creation
    rw [ih, List.filterMap_cons_some hentry, List.append_assoc, List.singleton_append]

theorem TakenInTurn.extends {ops : List MountOp} (h : TakenInTurn t ops t') : Extends t t' := by
  induction h with
  | nil t => exact Extends.refl t
  | cons htakes _ ih =>
    obtain ⟨entry, -, -, rfl⟩ := htakes.creation
    exact (extends_append _ _).trans ih

theorem change_run (call path : String) (t : FileTree)
    : (change call path : SetupM FileTree Unit).run t
        = match t.openDirectory path with
          | .ok _ => (.ok (), t)
          | .error e => (.error (.call call (pathErrno e)), t) := by
  have hopen : FileSystem.openDirectory path t = (t.openDirectory path, t) := rfl
  unfold change
  rw [named_run, StateM.bind_apply, hopen]
  cases t.openDirectory path with
  | ok => rfl
  | error => rfl

section Refused

variable (errno : MountCall → FileTree → Errno)

theorem foldlM_apply_cases (ops : List MountOp) (t : FileTree)
    : ∃ taken rest t',
        ops = taken ++ rest ∧ TakenInTurn t taken t'
          ∧ ((rest = []
                ∧ (ops.foldlM (@apply FileTree _ (refuseMounts errno)) none).run t
                  = (.ok none, t'))
            ∨ ∃ op left f,
                rest = op :: left ∧ (∀ t'', ¬ op.Takes t' t'') ∧ op.IsNamedBy f
                  ∧ (ops.foldlM (@apply FileTree _ (refuseMounts errno)) none).run t
                    = (.error f, t')) := by
  induction ops generalizing t with
  | nil => exact ⟨[], [], t, rfl, .nil t, .inl ⟨rfl, rfl⟩⟩
  | cons op ops ih =>
    rw [List.foldlM_cons, ExceptT.run_bind_apply]
    obtain ⟨t₁, htakes, hrun⟩ | ⟨hnone, f, hf, hrun⟩ := apply_cases errno op t
    . obtain ⟨taken, rest, t', hops, hturn, hcases⟩ := ih t₁
      rw [hrun]
      exact ⟨op :: taken, rest, t', by rw [hops, List.cons_append], .cons htakes hturn, hcases⟩
    . rw [hrun]
      exact ⟨[], op :: ops, t, rfl, .nil t, .inr ⟨op, ops, f, rfl, hnone, hf, rfl⟩⟩

theorem enter_run (root : String) (t : FileTree)
    : ∃ call e,
        call ∈ ["chdir(new_root_mount_path)", "pivot_root(\".\", \".\")"]
          ∧ (@enter FileTree _ (refuseMounts errno) root).run t = (.error (.call call e), t) := by
  unfold enter
  rw [ExceptT.run_bind_apply, change_run]
  cases t.openDirectory root with
  | ok => exact ⟨_, _, by simp, rfl⟩
  | error => exact ⟨_, _, by simp, rfl⟩

/-- Building a file system takes the steps in turn up to the first that cannot be taken, whose call
and path the fault names. Their entries are added to the tree, and every path that led to something
before leads to the same directory or file after it, also when a step has failed. Where nothing may
be mounted, whatever the number that tells so, no new root is entered in the end. -/
theorem applyAll_in_turn (ops : List MountOp) (newRoot : Option String) (t : FileTree)
    : ∃ taken rest result t',
        (@applyAll FileTree _ (refuseMounts errno) ops newRoot).run t = (result, t')
          ∧ ops = taken ++ rest ∧ TakenInTurn t taken t'
          ∧ (result = .ok () ↔ rest = [] ∧ newRoot = none)
          ∧ (∀ op left, rest = op :: left →
              (∀ t'', ¬ op.Takes t' t'') ∧ ∃ f, result = .error f ∧ op.IsNamedBy f)
          ∧ (∀ root, rest = [] → newRoot = some root →
              ∃ call e,
                call ∈ ["chdir(new_root_mount_path)", "pivot_root(\".\", \".\")"]
                  ∧ result = .error (.call call e))
          ∧ t'.entries = t.entries ++ taken.filterMap creation?
          ∧ ∀ path found, t.find path = .ok found → t'.find path = .ok found := by
  obtain ⟨taken, rest, t', hops, hturn, hcases⟩ := foldlM_apply_cases errno ops t
  have hfind (path : String) (found : Place × Entry) (h : t.find path = .ok found)
      : t'.find path = .ok found :=
    find_of_extends hturn.extends h
  have htop : t.openDirectory "/" = .ok () := by rfl
  unfold applyAll
  rw [ExceptT.run_bind_apply, change_run, htop]
  dsimp only
  rw [ExceptT.run_bind_apply]
  obtain ⟨rfl, hrun⟩ | ⟨op, left, f, rfl, hnone, hf, hrun⟩ := hcases
  . rw [hrun]
    cases newRoot with
    | none =>
      exact ⟨taken, [], _, t', rfl, hops, hturn, by simp, nofun, nofun, hturn.entries, hfind⟩
    | some root =>
      obtain ⟨call, e, hcall, henter⟩ := enter_run errno root t'
      refine ⟨taken, [], _, t', henter, hops, hturn, by simp, nofun, ?_, hturn.entries, hfind⟩
      exact fun _ _ _ => ⟨call, e, hcall, rfl⟩
  . rw [hrun]
    refine ⟨taken, op :: left, _, t', rfl, hops, hturn, by simp, ?_, nofun, hturn.entries, hfind⟩
    rintro _ _ ⟨⟩
    exact ⟨hnone, f, rfl, hf⟩

end Refused

end MountOp

end Enclosure
