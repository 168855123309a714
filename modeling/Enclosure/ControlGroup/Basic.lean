import Enclosure.FileSystem
import Enclosure.Text.Quoted

/-!
This module contains what can go wrong with control groups, and the reading and writing of their
files.
-/

namespace Enclosure

inductive GroupFault where
  | io (op path : String) (cause : IoFault)
  | ownGroup (reason : String)
  | malformed (file content : String)
  | unusableRoot (path reason : String)
  | delegation (reason : String)
  deriving DecidableEq, Repr

def GroupFault.message : GroupFault → String
  | io op path cause => s!"{op}({path}): {cause.message}"
  | ownGroup reason => s!"cannot determine own cgroup: {reason}"
  | malformed file content => s!"malformed {file}: " ++ Text.quote content
  | unusableRoot path reason => s!"cgroup root {path} is not usable: {reason}"
  | delegation reason => s!"nsdelegate check: {reason}"

def GroupFault.causes (f : GroupFault) : List String :=
  f.message :: match f with
    | io _ _ cause => [cause.message]
    | _ => []

/-- A sequence of system calls on control groups, which ends at its first fault. -/
abbrev GroupM (σ : Type) := ExceptT GroupFault (StateM σ)

namespace ControlGroup

open FileSystem

variable {σ : Type} [FileSystem σ]

def named (op path : String) (r : StateM σ (Except IoFault α)) : GroupM σ α := do
  match ← (r : StateM σ _) with
  | .ok a => return a
  | .error e => throw (.io op path e)

def writeFile (path content : String) : GroupM σ Unit :=
  named "write" path (write path content)

def readFile (path : String) : GroupM σ String :=
  named "read" path (read path)

def openDirectory (path : String) : GroupM σ Unit :=
  named "open" path (FileSystem.openDirectory path)

def writeOptional (path content : String) : GroupM σ Unit := do
  match ← (write path content : StateM σ _) with
  | .ok () => return
  | .error e => if e.isNotFound then return else throw (.io "write" path e)

def controllers : List String :=
  ["pids", "memory", "cpu"]

def enableText : String :=
  "+pids +memory +cpu"

def hierarchy : String :=
  "/sys/fs/cgroup"

end ControlGroup

end Enclosure
