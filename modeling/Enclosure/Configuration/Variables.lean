import Enclosure.Configuration.Basic
import Enclosure.Settings.Variables

/-!
This module contains configurations as variables of an environment, in which a client hands its
configuration on to its supervisor.
-/

namespace Enclosure.Configuration

def variableStart : String := "CONFINE_"

def variableName (key : String) : String :=
  variableStart ++ String.ofList (key.toList.map Char.toUpper)

def logVariable : String := variableName "log"

def ofVariables (vars : List (String × String)) : Except ConfigurationFault Configuration :=
  ofAssignments .environment (Settings.ofVariables variableStart vars)

def toVariables (c : Configuration) : List (String × String) :=
  [(variableName "max_parallel_sandboxes", toString c.maxParallel),
    (variableName "shutdown_timeout_ms", toString c.shutdownMillis)]
  ++ (c.supervisorPath.map fun path => (variableName "supervisor_path", path)).toList
  ++ (c.groupRoot.map fun root => (variableName "cgroup_root", root)).toList

/-- The whole environment of a supervisor that is to build its tree below `root`. -/
def forwarded (c : Configuration) (root : String) (log : Option String) : List (String × String) :=
  { c with groupRoot := some root }.toVariables ++ (log.map fun l => (logVariable, l)).toList

end Enclosure.Configuration
