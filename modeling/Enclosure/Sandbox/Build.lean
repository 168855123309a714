import Enclosure.ControlGroup.Leaf
import Enclosure.Request.Validation
import Enclosure.SetupFault
import Enclosure.Verdict

/-!
This module contains the way of one request to its verdict, around the launch of its processes.
-/

namespace Enclosure.Sandbox

open ControlGroup

variable {σ : Type} [FileSystem σ]

def openGroups (tree : Tree) (leaf : Leaf) : GroupM σ Unit := do
  leaf.openDirectory
  leaf.openCpuStat
  tree.openInit

/-- Runs a request to its verdict: checks it, creates its leaf, and launches its processes there.
The leaf is dropped in the end. -/
def run (launch : Leaf → Request F → StateM σ Verdict) (tree : Tree) (r : Request F)
    : StateM σ (Verdict × Tree) := do
  match r.validate with
  | .error e => return (.failed e.message, tree)
  | .ok () =>
    match ← tree.createLeaf r.groupLimits with
    | (.error f, tree) => return (.failed f.message, tree)
    | (.ok leaf, tree) =>
      match ← (openGroups tree leaf : GroupM σ Unit).run with
      | .error f =>
        leaf.drop
        return (.failed f.message, tree)
      | .ok () =>
        let verdict ← launch leaf r
        leaf.drop
        return (verdict, tree)

end Enclosure.Sandbox
