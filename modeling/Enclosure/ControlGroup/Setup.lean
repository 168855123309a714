import Enclosure.ControlGroup.Leaf
import Enclosure.ControlGroup.Root

/-!
This module contains the building of a supervisor's tree: its own control group, the one for the
first processes of all enclosures, and the check that nothing in an enclosure can leave its leaf.
-/

namespace Enclosure

/-- A state `σ` in which a process can be started that tries to leave its control group. -/
class Confinement (σ : Type) where
  -- Starts a process in the control group of a directory, which is the top of the namespace that
  -- the process gets. It tries to write to two files, which are given by their bytes: one to
  -- leave the group, the other to raise its limit.
  start : String → List UInt8 → List UInt8 → StateM σ (Except Errno Unit)
  wait : StateM σ (Except Errno ProcessStatus)

namespace ControlGroup

open FileSystem

variable {σ : Type} [FileSystem σ]

def makeMissing (path : String) : GroupM σ Unit := do
  match ← (makeDirectory path 0o777 : StateM σ _) with
  | .ok () => return
  | .error e => if e = .system .exists_ then return else throw (.io "mkdir" path e)

variable [Confinement σ]

def tryLeaving (base test : String) : GroupM σ Unit := do
  let outside ← pathBytes (Path.join base "cgroup.procs")
  let limit ← pathBytes (Path.join test "pids.max")
  openDirectory test
  named "clone3" test do
    let r ← Confinement.start test outside limit
    return r.mapError .system
  let status ← named "waitid" test do
    let r ← Confinement.wait
    return r.mapError .system
  delegationVerdict status

-- Makes sure that a namespace confines to its control group. The group it is tried in is removed
-- again whether it does or not; the first fault counts.
def checkDelegation (base : String) : GroupM σ Unit := do
  let test := Path.join base "nsdelegate-check"
  makeMissing test
  ExceptT.mk do
    let result ← (tryLeaving base test : GroupM σ Unit).run
    let removed ← (named "rmdir" test (removeDirectory test) : GroupM σ Unit).run
    return do
      result
      removed

/-- Builds the tree of the process with this number, and moves the process to a group of its own
there, so that the controllers can be turned on above it. -/
def Tree.setup (root : String) (pid : UInt32) : GroupM σ Tree := do
  checkRoot root
  let base := treePath root pid
  let supervisor := Path.join base "supervisor"
  let tree : Tree := { base }
  enableControllers root
  [base, supervisor, tree.initPath].forM makeMissing
  writeFile (Path.join supervisor "cgroup.procs") "0"
  writeFile (Path.join base "cgroup.subtree_control") enableText
  writeOptional (Path.join supervisor "cgroup.pressure") "0"
  writeOptional (Path.join tree.initPath "cgroup.pressure") "0"
  checkDelegation base
  return tree

end ControlGroup

end Enclosure
