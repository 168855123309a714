import Enclosure.ControlGroup.Content
import Enclosure.Signal

/-!
This module contains the directory that the trees of all supervisors are below: whether it can be
used, how its controllers are passed on, and how the tree of a supervisor that is gone is removed.
-/

namespace Enclosure.ControlGroup

open FileSystem

variable {σ : Type} [FileSystem σ]

def own : GroupM σ String := do
  parseOwn (← readFile "/proc/self/cgroup")

/-- Checks that trees can be built below a directory. The needed controllers must be there, and
either they are on for its children already, or it may turn them on: it is the top of the hierarchy
or holds no processes. -/
def checkRoot (root : String) : GroupM σ Unit := do
  let unusable (reason : String) : GroupFault := .unusableRoot root reason
  let available ← match ← (read (Path.join root "cgroup.controllers") : StateM σ _) with
    | .ok content => pure content
    | .error e =>
      if e.isNotFound then throw (unusable "not a cgroup v2 directory")
      else throw (.io "read" (Path.join root "cgroup.controllers") e)
  if let missing :: _ := missingControllers available then
    throw (unusable s!"the {missing} controller is not delegated to it")
  let enabled ← readFile (Path.join root "cgroup.subtree_control")
  if missingControllers enabled = [] then return
  let hasType ← (pathExists (Path.join root "cgroup.type") : StateM σ _)
  let processes ← readFile (Path.join root "cgroup.procs")
  if hasType && Text.trim processes.toList ≠ [] then
    throw (unusable ("it holds processes, so it cannot enable controllers for its children; "
      ++ "set cgroup_root to an empty delegated directory"))

/-- Turns the controllers on for the children of a directory, unless they are on already. -/
def enableControllers (dir : String) : GroupM σ Unit := do
  let file := Path.join dir "cgroup.subtree_control"
  let enabled ← readFile file
  if missingControllers enabled = [] then return
  writeFile file enableText

/-- The tree of the supervisor with this process number. -/
def treePath (root : String) (pid : UInt32) : String :=
  Path.join root s!"confine-{pid}"

def removeEach (base : String)
    : List (Except IoFault (String × Bool)) → StateM σ (Option GroupFault)
  | [] => return none
  | .error e :: rest => do
    let _ ← removeEach base rest
    return some (.io "readdir" base e)
  | .ok (name, isDirectory) :: rest => do
    if !isDirectory then removeEach base rest
    else
      let path := Path.join base name
      let result ← removeDirectory path
      let later ← removeEach base rest
      match result with
      | .ok () => return later
      | .error e => return some (.io "rmdir" path e)

/-- Removes the tree of a supervisor that is gone. Only the empty directories that it leaves behind
are removed, and each of them is tried. -/
def removeTree (root : String) (pid : UInt32) : GroupM σ Unit := do
  let base := treePath root pid
  match ← (list base : StateM σ _) with
  | .error e => if e.isNotFound then return else throw (.io "opendir" base e)
  | .ok entries =>
    match ← (removeEach base entries : StateM σ _) with
    | some fault => throw fault
    | none => named "rmdir" base (removeDirectory base)

def delegationVerdict (status : ProcessStatus) : Except GroupFault Unit :=
  if status = .exited 0 then .ok ()
  else if status = .exited 1 then
    .error (.delegation
      "cgroup2 is not mounted with nsdelegate, sandboxes could escape their limits")
  else .error (.delegation s!"the child process died of unexpected reason: {status.describe}")

def pathBytes (path : String) : Except GroupFault (List UInt8) :=
  if Path.hasNul path then .error (.io "open" path .nulInPath) else .ok path.toUTF8.data.toList

end Enclosure.ControlGroup
