/-!
This module contains readers of text, which take characters from the front of what is left and may
fail.
-/

namespace Enclosure

abbrev Scan := StateT (List Char) Option

namespace Scan

def peek : Scan (Option Char) := do
  return (← get).head?

def isAtEnd : Scan Bool := do
  return (← get).isEmpty

def one (p : Char → Bool) : Scan Char := do
  match ← get with
  | c :: cs => if p c then set cs; return c else failure
  | [] => failure

def accept (c : Char) : Scan Bool := do
  match ← get with
  | d :: ds => if c = d then set ds; return true else return false
  | [] => return false

def exact : List Char → Scan Unit
  | [] => return
  | c :: cs => do
    let _ ← one (· = c)
    exact cs

def acceptAll (cs : List Char) : Scan Bool := do
  let rest ← get
  if cs.isPrefixOf rest then set (rest.drop cs.length); return true else return false

def takeWhile (p : Char → Bool) : Scan (List Char) := do
  let rest ← get
  set (rest.dropWhile p)
  return rest.takeWhile p

def count (p : Char → Bool) : Nat → Scan (List Char)
  | 0 => return []
  | n + 1 => do
    let c ← one p
    return c :: (← count p n)

def all? (r : Scan α) (s : List Char) : Option α :=
  match r.run s with
  | some (a, []) => some a
  | _ => none

end Scan

end Enclosure
