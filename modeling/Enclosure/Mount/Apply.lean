import Enclosure.FileSystem
import Enclosure.Mount.Options
import Enclosure.SetupFault

/-!
This module contains the building of the file system of an enclosure: its steps one after the other,
and then the way into the new root.
-/

namespace Enclosure

/-- A system call on mounts. What has been opened is mounted nowhere until it is moved, and no more
than one tree is open at a time. -/
inductive MountCall where
  | mount (kind target : String) (flags : Nat) (options : Option String)
  | detach (target : String)
  | openTree (source : String) (flags : Nat)
  | setAttributes (recursive : Bool) (attributes : Nat)
  | moveMount (dest : String)
  | pivotRoot (newRoot putOld : String)
  deriving DecidableEq, Repr

/-- A state `σ` that answers system calls on mounts, each of which may fail and may change it. -/
class Mounts (σ : Type) where
  perform : MountCall → StateM σ (Except Errno Unit)

abbrev SetupM (σ : Type) := ExceptT SetupFault (StateM σ)

namespace MountOp

def named (call : String) (r : StateM σ (Except IoFault α)) : SetupM σ α := do
  match ← (r : StateM σ _) with
  | .ok a => return a
  | .error e => throw (.ofIo call e)

-- The number with which a path that is looked up fails; a path with a NUL byte never gets to the
-- kernel.
def pathErrno : IoFault → Errno
  | .system e => e
  | _ => .invalid

open FileSystem

variable {σ : Type} [FileSystem σ]

def change (call path : String) : SetupM σ Unit :=
  named call do
    let r ← FileSystem.openDirectory path
    return r.mapError fun e => .system (pathErrno e)

variable [Mounts σ]

def perform (call : String) (c : MountCall) : SetupM σ Unit :=
  named call do
    let r ← Mounts.perform c
    return r.mapError .system

def mount (call kind path : String) (flags : Nat) (options : Option String) : SetupM σ Unit := do
  if Path.hasNul path then throw (.call call .invalid)
  perform call (.mount kind path flags options)

def probe (path : String) : SetupM σ UInt64 := do
  mount s!"probing mount(tmpfs at {Text.quote path})" "tmpfs" path (flags false true)
    (some "size=0,nr_inodes=2,mode=0755")
  let inside := Path.trimSlashes path ++ "/probe"
  let emptyInodes : UInt64 ←
    match ← (makeDirectory inside 0o755 : StateM σ _) with
    | .ok () => pure 1
    | .error e =>
      if e = .system .noSpace then pure 2
      else throw (.call s!"probing mkdir({Text.quote inside})" (pathErrno e))
  perform s!"umount2({Text.quote path})" (.detach path)
  return emptyInodes

def mountTmpfs (m : Tmpfs) (emptyInodes : UInt64) : SetupM σ Unit :=
  mount s!"mount(tmpfs at {Text.quote m.path})" "tmpfs" m.path (flags m.readOnly m.noExec)
    (some (m.options emptyInodes))

def mountBind (m : Bind) : SetupM σ Unit := do
  if Path.hasNul m.source then
    throw (.invalid s!"bind mount source {Text.quote m.source} contains NUL")
  if Path.hasNul m.dest then
    throw (.invalid s!"bind mount dest {Text.quote m.dest} contains NUL")
  perform s!"open_tree({Text.quote m.source})" (.openTree m.source m.openFlags)
  perform "mount_setattr()" (.setAttributes m.recursive m.attributes)
  perform s!"move_mount(dest: {Text.quote m.dest})" (.moveMount m.dest)

/-- Takes one step. How many inodes an empty tmpfs takes is found out before the first one is
mounted, and kept for those after it. -/
def apply (emptyInodes : Option UInt64) : MountOp → SetupM σ (Option UInt64)
  | tmpfs m => do
    let n ← match emptyInodes with
      | some n => pure n
      | none => probe m.path
    mountTmpfs m n
    return some n
  | proc m => do
    mount s!"mount(proc at {Text.quote m.path})" "proc" m.path (flags m.readOnly m.noExec) none
    return emptyInodes
  | bind m => do
    mountBind m
    return emptyInodes
  | directory m => do
    named s!"mkdir({Text.quote m.path})" do
      let r ← makeDirectory m.path m.mode.toNat
      return r.mapError fun e => .system (pathErrno e)
    return emptyInodes
  | file m => do
    named s!"open({Text.quote m.path}, O_CREAT | O_EXCL)" (createFile m.path m.mode.toNat)
    return emptyInodes

def enter (root : String) : SetupM σ Unit := do
  change "chdir(new_root_mount_path)" root
  perform "pivot_root(\".\", \".\")" (.pivotRoot "." ".")
  perform "umount2(\".\")" (.detach ".")

/-- Takes every step in order up to the first that fails, then enters the new root. -/
def applyAll (ops : List MountOp) (newRoot : Option String) : SetupM σ Unit := do
  change "chdir(\"/\")" "/"
  let _ ← ops.foldlM apply none
  if let some root := newRoot then
    enter root

end MountOp

namespace FileTree

/-- A file tree without any mounts, where every one is refused with some number. -/
def refuseMounts (errno : MountCall → FileTree → Errno) : Mounts FileTree where
  perform call t := (.error (errno call t), t)

-- The number for a path is that with which it is looked up, and otherwise that of a caller that
-- may not mount.
def mountErrno (call : MountCall) (t : FileTree) : Errno :=
  match call with
  | .mount _ path _ _ | .moveMount path => lookup (t.openDirectory path)
  | .openTree path _ => lookup (t.openFile path)
  | _ => .perm
where
  lookup : Except IoFault Unit → Errno
    | .ok () => .perm
    | .error e => MountOp.pathErrno e

instance : Mounts FileTree :=
  refuseMounts mountErrno

end FileTree

end Enclosure
