import Enclosure.Text.Number
import Enclosure.Text.Split

/-!
This module contains the names of settings, which may reach into a table or a list as in `a.b` and
`a[0]`.
-/

namespace Enclosure.Settings

-- A step into a table, or to a place in a list. A negative place counts from the end.
inductive Step where
  | member (name : String)
  | element (place : Int)
  deriving DecidableEq, Repr

-- The most elements of a list. Each takes 96 bytes, and places have 64 bits with a sign.
def maxElements : Nat := 0x7FFFFFFFFFFFFFFF / 96

def Step.size : Step → Nat
  | member _ => 0
  | element place => if place < 0 then place.natAbs else place.toNat + 1

structure Name where
  root : String
  steps : List Step := []
  deriving DecidableEq, Repr

def isNameChar (c : Char) : Bool :=
  c.isAlphanum || c = '_' || c = '-'

-- A place in a list: a whole number of 64 bits without a plus sign, and blanks around it.
def place? (s : List Char) : Option Int :=
  let s := ((s.dropWhile Text.isSpace).reverse.dropWhile Text.isSpace).reverse
  if s.head? = some '+' then none else Text.signed? 64 s

def steps? : (fuel : Nat) → List Char → Option (List Step)
  | _, [] => some []
  | 0, _ => none
  | fuel + 1, '.' :: s =>
    let name := s.takeWhile isNameChar
    if name.isEmpty then none
    else (steps? fuel (s.dropWhile isNameChar)).map (.member (String.ofList name) :: ·)
  | fuel + 1, '[' :: s => do
    let place ← place? (s.takeWhile (· ≠ ']'))
    match s.dropWhile (· ≠ ']') with
    | _ :: rest => (steps? fuel rest).map (.element place :: ·)
    | [] => none
  | _, _ => none

-- The name that a text stands for. A text that has no steps in it is a name as a whole.
def Name.ofString (s : String) : Name :=
  let root := s.toList.takeWhile isNameChar
  let rest := s.toList.dropWhile isNameChar
  match steps? rest.length rest with
  | some steps => if root.isEmpty then { root := s } else { root := String.ofList root, steps }
  | none => { root := s }

end Enclosure.Settings
