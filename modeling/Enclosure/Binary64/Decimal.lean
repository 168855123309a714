import Enclosure.Binary64.Basic
import Enclosure.Text.Number

/-!
This module contains the reading of decimal texts as binary64 numbers. Every text is read as the
number nearest to what it says.
-/

namespace Enclosure.Binary64

def ofDecimal (negative : Bool) (digits count : Nat) (exponent : Int) : Binary64 :=
  if digits = 0 || count + exponent ≤ -324 then zero negative
  else if 310 ≤ exponent then infinite negative
  else if 0 ≤ exponent then ofRatio negative (digits * Nat.pow 10 exponent.toNat) 1
  else ofRatio negative digits (Nat.pow 10 (-exponent).toNat)

def exponent? (s : List Char) : Option Int :=
  match s with
  | '-' :: cs => (Text.natural? cs).map fun n => -(n : Int)
  | '+' :: cs => (Text.natural? cs).map Int.ofNat
  | cs => (Text.natural? cs).map Int.ofNat

def decimal? (negative : Bool) (s : List Char) : Option Binary64 := do
  let whole := s.takeWhile Char.isDigit
  let (fraction, rest) := match s.dropWhile Char.isDigit with
    | '.' :: cs => (cs.takeWhile Char.isDigit, cs.dropWhile Char.isDigit)
    | cs => ([], cs)
  let digits ← Text.natural? (whole ++ fraction)
  let exponent ← match rest with
    | [] => some 0
    | c :: cs => if c = 'e' || c = 'E' then exponent? cs else none
  return ofDecimal negative digits (whole ++ fraction).length (exponent - fraction.length)

def unsigned? (negative : Bool) (s : List Char) : Option Binary64 :=
  let lower := s.map Char.toLower
  if lower = ['n', 'a', 'n'] then some nan
  else if lower = ['i', 'n', 'f'] || lower = ['i', 'n', 'f', 'i', 'n', 'i', 't', 'y'] then
    some (infinite negative)
  else decimal? negative s

/-- A decimal number, `inf`, `infinity` or `nan`, in letters of either case and with or without a
sign. -/
def parse? (s : List Char) : Option Binary64 :=
  match s with
  | '-' :: cs => unsigned? true cs
  | '+' :: cs => unsigned? false cs
  | cs => unsigned? false cs

end Enclosure.Binary64
