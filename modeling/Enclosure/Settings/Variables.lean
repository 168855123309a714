import Enclosure.Binary64.Decimal
import Enclosure.Settings.Basic
import Enclosure.Text.Split

/-!
This module contains the settings that the variables of an environment give.
-/

namespace Enclosure.Settings

/-- The value that the text of a variable stands for: the first of a truth value, a whole number
of 64 bits and a number that reads it. -/
def ofVariable (value : String) : Setting :=
  let s := value.toList
  let lower := s.map Char.toLower
  if lower = "true".toList then .boolean true
  else if lower = "false".toList then .boolean false
  else match Text.signed? 64 s with
    | some n => .integer n
    | none => match Binary64.parse? s with
      | some x => .real x
      | none => .text value

-- The small form of a letter that plain names may have. The sign of kelvin has one of them too.
def small (c : Char) : Char :=
  if c = '\u212a' then 'k' else c.toLower

/-- The settings of the variables whose names start with `start`, in letters of either case. -/
def ofVariables (start : String) (vars : List (String × String)) : Assignments :=
  vars.filterMap fun (name, value) => do
    let name ← afterStart? (start.toList.map small) (name.toList.map small)
    return (String.ofList name, ofVariable value)

end Enclosure.Settings
