import Enclosure.Binary64.Decimal
import Enclosure.Settings.Basic
import Enclosure.Text.Digits

/-!
This module contains the numbers of TOML: whole ones of 64 bits in four bases, and binary64 ones.
-/

namespace Enclosure.Toml

-- At least one digit, with single underscores between digits; the digits without them.
def grouped? (isDigit : Char → Bool) : List Char → Option (List Char)
  | [] => none
  | [c] => if isDigit c then some [c] else none
  | c :: '_' :: cs => if isDigit c then (grouped? isDigit cs).map (c :: ·) else none
  | c :: cs => if isDigit c then (grouped? isDigit cs).map (c :: ·) else none

def integer? (n : Int) : Option Setting :=
  if -0x8000000000000000 ≤ n ∧ n < 0x8000000000000000 then some (.integer n) else none

def based? (base : Nat) (isDigit : Char → Bool) (s : List Char) : Option Setting := do
  integer? (Text.ofDigits base (← grouped? isDigit s))

def real? (negative : Bool) (s : List Char) : Option Setting :=
  match Binary64.decimal? negative s with
  | some (.finite sign m k) => some (.real (.finite sign m k))
  | _ => none

def exponent? (s : List Char) : Option (List Char) :=
  match s with
  | '-' :: cs => (grouped? Char.isDigit cs).map ('-' :: ·)
  | '+' :: cs => grouped? Char.isDigit cs
  | cs => grouped? Char.isDigit cs

-- A number in decimal, without its sign. A whole part has no leading zeros.
def decimal? (negative : Bool) (s : List Char) : Option Setting := do
  let whole ← grouped? Char.isDigit (s.takeWhile fun c => c.isDigit || c = '_')
  guard (whole.length = 1 ∨ whole.head? ≠ some '0')
  match s.dropWhile fun c => c.isDigit || c = '_' with
  | [] =>
    let n := Text.ofDigits 10 whole
    integer? (if negative then -n else n)
  | '.' :: cs =>
    let fraction ← grouped? Char.isDigit (cs.takeWhile fun c => c.isDigit || c = '_')
    match cs.dropWhile fun c => c.isDigit || c = '_' with
    | [] => real? negative (whole ++ '.' :: fraction)
    | c :: cs =>
      guard (c = 'e' ∨ c = 'E')
      real? negative (whole ++ '.' :: fraction ++ 'e' :: (← exponent? cs))
  | c :: cs =>
    guard (c = 'e' ∨ c = 'E')
    real? negative (whole ++ 'e' :: (← exponent? cs))

def signed? (negative : Bool) (s : List Char) : Option Setting :=
  if s = ['i', 'n', 'f'] then some (.real (.infinite negative))
  else if s = ['n', 'a', 'n'] then some (.real .nan)
  else decimal? negative s

def number? (s : List Char) : Option Setting :=
  match s with
  | '0' :: 'x' :: cs => based? 16 Text.isHexDigit cs
  | '0' :: 'o' :: cs => based? 8 (fun c => '0' ≤ c && c ≤ '7') cs
  | '0' :: 'b' :: cs => based? 2 (fun c => c = '0' || c = '1') cs
  | '-' :: cs => signed? true cs
  | '+' :: cs => signed? false cs
  | cs => signed? false cs

end Enclosure.Toml
