import Enclosure.Binary64.Shortest
import Enclosure.Settings.Name
import Enclosure.Text.Quoted

/-!
This module contains named settings as files and variables give them, and the numbers and texts
that they stand for. Lists and tables never stand for either, so what they hold is left out.
-/

namespace Enclosure

inductive Setting where
  | absent
  | boolean (b : Bool)
  | integer (n : Int)
  | real (x : Binary64)
  | text (s : String)
  | list
  -- A list whose elements are settings of their own, with a place in their names.
  | elements
  | table
  deriving DecidableEq, Repr

namespace Setting

inductive Wanted where
  | number
  | unsigned
  | text
  deriving DecidableEq, Repr

def Wanted.describe : Wanted → String
  | number => "an integer"
  | unsigned => "an unsigned 64 bit or less integer"
  | text => "a string"

def describe : Setting → String
  | absent => "unit value"
  | boolean b => s!"boolean `{b}`"
  | integer n => s!"64-bit integer `{n}`"
  | real x => s!"floating point `{Binary64.plain.write x}`"
  | text s => s!"string {Text.quote s}"
  | list | elements => "sequence"
  | table => "map"

-- Whether a value is put together from settings of their own. Nobody has written such a value as
-- a whole.
def isGathered : Setting → Bool
  | elements | table => true
  | _ => false

def ofWord? (s : List Char) : Option UInt64 :=
  let lower := String.ofList (s.map Char.toLower)
  if ["true", "on", "yes"].contains lower then some 1
  else if ["false", "off", "no"].contains lower then some 0
  else (Text.unsigned? 64 s).map .ofNat

def toWord : Setting → Except Wanted UInt64
  | boolean b => .ok (if b then 1 else 0)
  | integer n => if n < 0 then .error .unsigned else .ok (.ofNat n.toNat)
  | real x => .ok x.toWord
  | text s => (ofWord? s.toList).elim (.error .number) .ok
  | _ => .error .number

def toText : Setting → Except Wanted String
  | boolean b => .ok (toString b)
  | integer n => .ok (toString n)
  | real x => .ok (Binary64.plain.write x)
  | text s => .ok s
  | _ => .error .text

end Setting

abbrev Assignments := List (String × Setting)

-- Settings by plain name; each name has at most one.
abbrev Settings := List (String × Setting)

namespace Settings

def get? (s : Settings) (name : String) : Option Setting :=
  s.lookup name

-- Puts a value under a name. A name with steps has a table or a list there that the value is part
-- of.
def put (s : Settings) (name : Name) (value : Setting) : Settings :=
  let value := match name.steps with
    | [] => value
    | .member _ :: _ => .table
    | .element _ :: _ => .elements
  s.filter (·.1 ≠ name.root) ++ [(name.root, value)]

/-- What a source comes to, unless some list in it has more elements than there can be. Of two
values under one name the later one counts. -/
def ofAssignments? (a : Assignments) : Option Settings :=
  let named := a.map fun (name, value) => (Name.ofString name, value)
  if named.any fun (name, _) => name.steps.any (maxElements < ·.size) then none
  else some (named.foldl (fun s (name, value) => s.put name value) [])

end Settings

end Enclosure
