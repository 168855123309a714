/-!
This module contains the numbers of the IEEE 754 format binary64, and the rounding of a ratio to the
nearest one of them, ties going to the even mantissa.
-/

namespace Enclosure

def roundHalfEven (n d : Nat) : Nat :=
  let q := n / d
  let r := n % d
  if 2 * r < d || (2 * r = d && q % 2 = 0) then q else q + 1

def roundHalfUp (n d : Nat) : Nat :=
  (2 * n + d) / (2 * d)

inductive Binary64 where
  | nan
  | infinite (negative : Bool)
  -- The number `mantissa * 2 ^ scale` in units of `2 ^ -1074`, or its negative.
  | finite (negative : Bool) (mantissa scale : Nat)
  deriving DecidableEq, Repr

namespace Binary64

def one : Nat := 1 <<< 1074

def precision : Nat := 53

def maxScale : Nat := 2045

def zero (negative : Bool) : Binary64 :=
  finite negative 0 0

def ofRounded (negative : Bool) (mantissa scale : Nat) : Binary64 :=
  let (mantissa, scale) :=
    if mantissa = 1 <<< precision then (1 <<< (precision - 1), scale + 1) else (mantissa, scale)
  if maxScale < scale then infinite negative else finite negative mantissa scale

def ofRatio (negative : Bool) (n d : Nat) : Binary64 :=
  let units := n * one / d
  let scale := if units = 0 then 0 else Nat.log2 units + 1 - precision
  ofRounded negative (roundHalfEven (n * one) (d <<< scale)) scale

def units (mantissa scale : Nat) : Nat :=
  mantissa <<< scale

/-- The nearest 64-bit word, half going up. Negative numbers become zero, and those beyond the last
word become that word. -/
def toWord : Binary64 → UInt64
  | nan | infinite true | finite true .. => 0
  | infinite false => .ofNat (UInt64.size - 1)
  | finite false m s => .ofNat (min (UInt64.size - 1) (roundHalfUp (units m s) one))

end Binary64

end Enclosure
