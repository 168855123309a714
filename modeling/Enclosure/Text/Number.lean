/-!
This module contains the reading of whole numbers in decimal.
-/

namespace Enclosure.Text

def digit? (c : Char) : Option Nat :=
  if c.isDigit then some (c.toNat - '0'.toNat) else none

def natural? (s : List Char) : Option Nat :=
  if s.isEmpty then none else go s 0
where
  go : List Char → Nat → Option Nat
    | [], n => some n
    | c :: cs, n => do
      let d ← digit? c
      go cs (10 * n + d)

-- A number below `2 ^ width`, with or without a plus sign.
def unsigned? (width : Nat) (s : List Char) : Option Nat :=
  let digits := match s with
    | '+' :: cs => cs
    | cs => cs
  (natural? digits).filter (· < 1 <<< width)

-- A number from `-2 ^ (width - 1)` up to but not including `2 ^ (width - 1)`, with or without a
-- sign.
def signed? (width : Nat) (s : List Char) : Option Int :=
  match s with
  | '-' :: cs => ((natural? cs).filter (· ≤ 1 <<< (width - 1))).map fun n => -(n : Int)
  | '+' :: cs => ((natural? cs).filter (· < 1 <<< (width - 1))).map Int.ofNat
  | cs => ((natural? cs).filter (· < 1 <<< (width - 1))).map Int.ofNat

end Enclosure.Text
