import Enclosure.Configuration.Basic
import Enclosure.ControlGroup.Root

/-!
This module contains what a configuration leaves open and the surroundings decide: the program of
the supervisor and the root of its tree.
-/

namespace Enclosure.Configuration

open FileSystem

def supervisorName : String := "confine-supervisor"

variable {σ : Type} [FileSystem σ]

def firstFile : List String → StateM σ (Option String)
  | [] => return none
  | path :: rest => do
    if ← isFile path then return some path else firstFile rest

/-- The program of the supervisor. If none is given it is the first one in the directory of the own
program and then in those of the search path, or else left to be found by its name. -/
def supervisor (c : Configuration) (ownDirectory searchPath : Option String)
    : StateM σ String := do
  if let some path := c.supervisorPath then return path
  let searched := searchPath.elim [] fun s => (split (· = ':') s.toList).map String.ofList
  let candidates := (ownDirectory.toList ++ searched).map (Path.join · supervisorName)
  return (← firstFile candidates).getD supervisorName

/-- The root that is given, or the own control group. -/
def root (c : Configuration) : GroupM σ String :=
  match c.groupRoot with
  | some root => return root
  | none => ControlGroup.own

end Enclosure.Configuration
