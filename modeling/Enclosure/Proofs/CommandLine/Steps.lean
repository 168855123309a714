import Enclosure.CommandLine.Plan
import Enclosure.Proofs.ControlGroup.Effect
import Enclosure.Proofs.FileSystem

/-!
This module contains the steps of a plan below a root: apart from the file system at the root
itself, each mount is put on a directory or file that is made for it right before.
-/

namespace Enclosure

theorem mapM_apply {f : α → StateM σ β} {g : α → β} {s : σ} (h : ∀ a, f a s = (g a, s))
    (l : List α)
    : l.mapM f s = (l.map g, s) := by
  induction l with
  | nil => rfl
  | cons a l ih =>
    rw [List.mapM_cons, StateM.bind_apply, h, StateM.bind_apply, ih]
    rfl

namespace MountOp

def made? : MountOp → Option String
  | directory m => some m.path
  | file m => some m.path
  | _ => none

def mountedOn? : MountOp → Option String
  | tmpfs m => some m.path
  | proc m => some m.path
  | bind m => some m.dest
  | _ => none

def bind? : MountOp → Option Bind
  | bind m => some m
  | _ => none

end MountOp

namespace CommandLine

structure MountPoint where
  tail : String
  isDirectory : Bool
  mount : String → MountOp
  made?_mount (path : String) : (mount path).made? = none := by intro path; rfl
  mountedOn?_mount (path : String) : (mount path).mountedOn? = some path := by intro path; rfl

namespace MountPoint

def creation (root : String) (p : MountPoint) : MountOp :=
  if p.isDirectory then .directory { path := root ++ p.tail } else .file { path := root ++ p.tail }

def steps (root : String) (p : MountPoint) : List MountOp :=
  [p.creation root, p.mount (root ++ p.tail)]

def ofSystem (directory : String) : MountPoint where
  tail := directory
  isDirectory := true
  mount path := .bind { source := directory, dest := path }

def proc : MountPoint where
  tail := "/proc"
  isDirectory := true
  mount path := .proc { path }

def tmp : MountPoint where
  tail := "/tmp"
  isDirectory := true
  mount path := .tmpfs { path }

variable {σ : Type} [FileSystem σ]

def ofBinding (s : σ) (b : Binding) : MountPoint where
  tail := b.destination
  isDirectory := (FileSystem.isDirectory b.source s).1
  mount := b.mountAt

def existing (s : σ) : List String :=
  systemDirectories.filter fun directory => (FileSystem.isDirectory directory s).1

def all (s : σ) (bindings : List Binding) : List MountPoint :=
  (existing s).map ofSystem ++ bindings.map (ofBinding s) ++ [proc, tmp]

end MountPoint

variable {σ : Type} [FileSystem σ] [StableFileSystem σ]

theorem systemMounts_apply (root directory : String) (s : σ)
    : systemMounts root directory s
        = (if (FileSystem.isDirectory directory s).1 then (MountPoint.ofSystem directory).steps root
            else [],
          s) := by
  unfold systemMounts
  rw [StateM.bind_apply, StableFileSystem.isDirectory]
  cases (FileSystem.isDirectory directory s).1 with
  | true => rfl
  | false => rfl

theorem bindingMounts_apply (root : String) (b : Binding) (s : σ)
    : bindingMounts root b s = ((MountPoint.ofBinding s b).steps root, s) := by
  unfold bindingMounts MountPoint.steps MountPoint.creation MountPoint.ofBinding
  rw [StateM.bind_apply, StableFileSystem.isDirectory]
  cases (FileSystem.isDirectory b.source s).1 with
  | true => rfl
  | false => rfl

omit [StableFileSystem σ] in
theorem flatten_system (root : String) (s : σ)
    : (systemDirectories.map fun directory =>
          if (FileSystem.isDirectory directory s).1 then (MountPoint.ofSystem directory).steps root
          else []).flatten
        = ((MountPoint.existing s).map MountPoint.ofSystem).flatMap (MountPoint.steps root) := by
  unfold MountPoint.existing
  induction systemDirectories with
  | nil => rfl
  | cons directory directories ih =>
    rw [List.map_cons, List.flatten_cons, ih]
    rw [List.filter_cons]
    cases (FileSystem.isDirectory directory s).1 with
    | true => rfl
    | false => rfl

theorem rootPlan?_apply (root : String) (bindings : List Binding) (s : σ)
    : (rootPlan? root bindings : StateM σ _) s
        = (if Path.trimSlashes root = "" then none
            else some
              ⟨.tmpfs { path := Path.trimSlashes root }
                :: (MountPoint.all s bindings).flatMap (MountPoint.steps (Path.trimSlashes root)),
                Path.trimSlashes root⟩,
          s) := by
  unfold rootPlan?
  by_cases hempty : Path.trimSlashes root = ""
  . rw [if_pos hempty, if_pos (by simp [hempty])]
    rfl
  . have hbound
        : (bindings.map fun b =>
              (MountPoint.ofBinding s b).steps (Path.trimSlashes root)).flatten
            = (bindings.map (MountPoint.ofBinding s)).flatMap
                (MountPoint.steps (Path.trimSlashes root)) := by
      rw [List.flatMap_map, List.flatMap_def]
    rw [if_neg hempty, if_neg (by simpa using hempty)]
    rw [StateM.bind_apply, mapM_apply (fun directory => systemMounts_apply _ directory s)]
    rw [StateM.bind_apply, mapM_apply (fun b => bindingMounts_apply _ b s)]
    dsimp only
    rw [flatten_system, hbound, MountPoint.all, List.flatMap_append, List.flatMap_append]
    rfl

theorem plan?_eq_some_iff {root : String} {bindings : List Binding} {s : σ} {plan : Plan}
    : (plan? (some root) bindings s).1 = some plan
        ↔ Path.trimSlashes root ≠ ""
          ∧ plan = ⟨.tmpfs { path := Path.trimSlashes root }
              :: (MountPoint.all s bindings).flatMap (MountPoint.steps (Path.trimSlashes root)),
            Path.trimSlashes root⟩ := by
  change (rootPlan? root bindings s).1 = some plan ↔ _
  rw [rootPlan?_apply]
  by_cases hempty : Path.trimSlashes root = ""
  . simp [hempty]
  . simp [hempty, eq_comm]

end CommandLine

end Enclosure
