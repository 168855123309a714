import Enclosure.Configuration.Lookup
import Enclosure.Configuration.Variables
import Enclosure.ControlGroup.Setup

/-!
This module contains what a supervisor does before it serves: it reads its configuration from its
environment and builds its tree.
-/

namespace Enclosure.Supervisor

open ControlGroup

inductive PreparationFault where
  | configuration (fault : ConfigurationFault)
  | root (fault : GroupFault)
  | groups (fault : GroupFault)
  deriving DecidableEq, Repr

namespace PreparationFault

def causes : PreparationFault → List String
  | configuration f => "supervisor: invalid configuration" :: f.causes
  | root f => "supervisor: cannot determine cgroup root" :: f.causes
  | groups f => "supervisor: cannot set up cgroups" :: f.causes

def message (f : PreparationFault) : String :=
  ": ".intercalate f.causes

end PreparationFault

variable {σ : Type} [FileSystem σ] [Confinement σ]

/-- The configuration and the tree of a supervisor with this process number and environment. -/
def prepare (pid : UInt32) (vars : List (String × String))
    : StateM σ (Except PreparationFault (Configuration × Tree)) := do
  match Configuration.ofVariables vars with
  | .error e => return .error (.configuration e)
  | .ok c =>
    match ← ((c.root : GroupM σ String).run : StateM σ _) with
    | .error e => return .error (.root e)
    | .ok root =>
      match ← ((Tree.setup root pid : GroupM σ Tree).run : StateM σ _) with
      | .error e => return .error (.groups e)
      | .ok tree => return .ok (c, tree)

end Enclosure.Supervisor
