import Enclosure.Binary64.Basic

/-!
This module contains the writing of binary64 numbers with the fewest digits that read back as the
same number, and of those with the ones nearest to it.
-/

namespace Enclosure.Binary64

def margins (mantissa scale : Nat) : Nat × Nat :=
  (if mantissa = 1 <<< (precision - 1) && 0 < scale then 1 <<< scale else 2 <<< scale, 2 <<< scale)

def readsBack (mantissa scale n d : Nat) : Bool :=
  let (below, above) := margins mantissa scale
  let here := 4 * units mantissa scale
  if mantissa % 2 = 0 then (here - below) * d ≤ n && n ≤ (here + above) * d
  else (here - below) * d < n && n < (here + above) * d

def multiple? (mantissa scale : Nat) (g : Int) : Option Nat :=
  let num := 4 * one * Nat.pow 10 g.toNat
  let den := Nat.pow 10 (-g).toNat
  let n := 4 * units mantissa scale * den
  let q := n / num
  let low := readsBack mantissa scale (q * num) den
  let high := readsBack mantissa scale ((q + 1) * num) den
  if high && (!low || num ≤ 2 * (n - q * num)) then some (q + 1)
  else if low then some q
  else none

def shortest (mantissa scale : Nat) : List Char × Int :=
  let top := (Nat.toDigits 10 (units mantissa scale / one)).length
  ((List.range 750).findSome? fun (i : Nat) =>
    let g := (top : Int) - i
    (multiple? mantissa scale g).map fun n => (Nat.toDigits 10 n, g)).getD ([], 0)

structure Format where
  fraction : Bool
  range : Option (Int × Int)

def plain : Format := ⟨false, none⟩

def compact : Format := ⟨true, some (-4, 16)⟩

def positional (fraction : Bool) (digits : List Char) (k : Int) : List Char :=
  if k ≤ 0 then ['0', '.'] ++ List.replicate (-k).toNat '0' ++ digits
  else if k.toNat < digits.length then digits.take k.toNat ++ '.' :: digits.drop k.toNat
  else digits ++ List.replicate (k.toNat - digits.length) '0' ++ if fraction then ['.', '0'] else []

def exponential (digits : List Char) (k : Int) : List Char :=
  digits.take 1 ++ (if digits.length ≤ 1 then [] else '.' :: digits.drop 1)
    ++ 'e' :: (toString (k - 1)).toList

def Format.writeFinite (f : Format) (mantissa scale : Nat) : List Char :=
  if mantissa = 0 then if f.fraction then ['0', '.', '0'] else ['0']
  else
    let (digits, last) := shortest mantissa scale
    let k := last + digits.length
    match f.range with
    | some (low, high) =>
      if k ≤ low || high < k then exponential digits k else positional f.fraction digits k
    | none => positional f.fraction digits k

/-- The text of a number. -/
def Format.write (f : Format) : Binary64 → String
  | nan => "NaN"
  | infinite negative => if negative then "-inf" else "inf"
  | finite negative m s =>
    String.ofList ((if negative then ['-'] else []) ++ f.writeFinite m s)

end Enclosure.Binary64
