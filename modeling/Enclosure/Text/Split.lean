/-!
This module contains the cutting of lists and texts into parts, lines and words.
-/

namespace Enclosure

-- The parts of a list between the elements that satisfy `p`; always at least one part.
def split (p : α → Bool) : List α → List (List α)
  | [] => [[]]
  | a :: as =>
    if p a then [] :: split p as
    else match split p as with
      | part :: parts => (a :: part) :: parts
      | [] => [[a]]

theorem split_ne_nil (p : α → Bool) (as : List α) : split p as ≠ [] := by
  cases as with
  | nil => simp [split]
  | cons a as =>
    unfold split
    split
    · simp
    · split <;> simp

def afterStart? [DecidableEq α] (start : List α) (as : List α) : Option (List α) :=
  if start.isPrefixOf as then some (as.drop start.length) else none

def beforeEnd? [DecidableEq α] (tail : List α) (as : List α) : Option (List α) :=
  (afterStart? tail.reverse as.reverse).map List.reverse

namespace Text

def isSpace (c : Char) : Bool :=
  c = ' ' || c = '\t'

def isBlank (c : Char) : Bool :=
  let n := c.toNat
  (9 ≤ n && n ≤ 13) || n = 0x20 || n = 0x85 || n = 0xA0 || n = 0x1680
    || (0x2000 ≤ n && n ≤ 0x200A) || n = 0x2028 || n = 0x2029 || n = 0x202F || n = 0x205F
    || n = 0x3000

/-- The lines of a text. A line ends with a newline, and a carriage return in front of the newline
belongs to the end; what follows the last newline is a line unless it is empty. -/
def lines (s : List Char) : List (List Char) :=
  let parts := split (· = '\n') s
  let ended := parts.dropLast.map fun l => (beforeEnd? ['\r'] l).getD l
  ended ++ (parts.getLast?.filter (· ≠ [])).toList

def words (s : List Char) : List (List Char) :=
  (split isBlank s).filter (· ≠ [])

def trimEnd (s : List Char) : List Char :=
  (s.reverse.dropWhile isBlank).reverse

def trim (s : List Char) : List Char :=
  trimEnd (s.dropWhile isBlank)

end Text

end Enclosure
