import Enclosure.Text.Split

/-!
This module contains paths as text: their segments, and joining them.
-/

namespace Enclosure

namespace Path

def segments (path : String) : List (List Char) :=
  split (· = '/') path.toList

def isAbsolute (path : String) : Bool :=
  path.toList.head? = some '/'

def hasNul (path : String) : Bool :=
  path.toList.contains '\x00'

def trimSlashes (path : String) : String :=
  String.ofList (path.toList.reverse.dropWhile (· = '/')).reverse

inductive Component where
  | root
  -- The directory that a relative path starts at.
  | current
  | parent
  | name (name : List Char)
  deriving DecidableEq, Repr

-- What stands between two slashes as a component. Nothing, as between two slashes in a row, and
-- `.` lead nowhere.
def Component.ofSegment? (s : List Char) : Option Component :=
  if s = [] ∨ s = ['.'] then none
  else if s = ['.', '.'] then some .parent
  else some (.name s)

-- The components of the rest of a path, when `s` has been read backwards since the last slash.
def componentsFrom (s : List Char) : List Char → List Component
  | [] => (Component.ofSegment? s.reverse).toList
  | c :: cs =>
    if c = '/' then (Component.ofSegment? s.reverse).toList ++ componentsFrom [] cs
    else componentsFrom (c :: s) cs

/-- The components of a path. A `.` is one only where a relative path starts with it. -/
def components (path : String) : List Component :=
  match path.toList with
  | '/' :: cs => .root :: componentsFrom [] cs
  | '.' :: cs =>
    if cs.head?.all (· = '/') then .current :: componentsFrom [] cs
    else componentsFrom ['.'] cs
  | cs => componentsFrom [] cs

def climbs (path : String) : Bool :=
  (components path).contains .parent

-- The segments that name something: empty ones and `.` stay where they are.
def names (path : String) : List String :=
  ((segments path).filter fun s => s ≠ [] ∧ s ≠ ['.']).map String.ofList

def lastName? (path : String) : Option String :=
  (names path).getLast?.filter (· ≠ "..")

def extension? (path : String) : Option String := do
  let parts := split (· = '.') (← lastName? path).toList
  if parts.length < 2 ∨ parts.dropLast = [[]] then none
  else parts.getLast?.map String.ofList

def addToName? (path suffix : String) : Option String := do
  let _ ← lastName? path
  let kept := (segments path).reverse.dropWhile fun s => s = [] || s = ['.']
  return "/".intercalate (kept.reverse.map String.ofList) ++ suffix

-- The path `tail` seen from `base`; an absolute `tail` stands for itself.
def join (base tail : String) : String :=
  if isAbsolute tail || base.isEmpty then tail
  else if base.toList.getLast? = some '/' then base ++ tail
  else base ++ "/" ++ tail

end Path

end Enclosure
