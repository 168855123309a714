import Enclosure.CommandLine.Binding
import Enclosure.FileSystem

/-!
This module contains the mounts that the options of a command line ask for. Without a root every
binding is mounted in place. With a root everything is built below it: the system directories of
the host, the bindings, and what a program expects besides.
-/

namespace Enclosure.CommandLine

open FileSystem

-- The directories of the host that every root gets, as far as they exist.
def systemDirectories : List String :=
  ["/bin", "/lib", "/lib64", "/usr"]

structure Plan where
  mounts : List MountOp
  newRoot : Option String
  deriving DecidableEq, Repr

variable {σ : Type} [FileSystem σ]

def systemMounts (root directory : String) : StateM σ (List MountOp) := do
  if ← isDirectory directory then
    return [.directory { path := root ++ directory },
      .bind { source := directory, dest := root ++ directory, recursive := true, readOnly := true }]
  else return []

def bindingMounts (root : String) (b : Binding) : StateM σ (List MountOp) := do
  let path := root ++ b.destination
  let point : MountOp :=
    if ← isDirectory b.source then .directory { path } else .file { path }
  return [point, b.mountAt path]

def lastMounts (root : String) : List MountOp :=
  [.directory { path := root ++ "/proc" }, .proc { path := root ++ "/proc" },
    .directory { path := root ++ "/tmp" }, .tmpfs { path := root ++ "/tmp", noExec := true }]

def rootPlan? (root : String) (bindings : List Binding) : StateM σ (Option Plan) := do
  let root := Path.trimSlashes root
  if root.isEmpty then return none
  let system ← (systemDirectories.mapM (systemMounts root) : StateM σ _)
  let bound ← (bindings.mapM (bindingMounts root) : StateM σ _)
  return some ⟨.tmpfs { path := root } :: system.flatten ++ bound.flatten ++ lastMounts root, root⟩

/-- The plan for an optional root. -/
def plan? (root : Option String) (bindings : List Binding) : StateM σ (Option Plan) :=
  match root with
  | none => return some ⟨bindings.map fun b => b.mountAt b.destination, none⟩
  | some root => rootPlan? root bindings

end Enclosure.CommandLine
