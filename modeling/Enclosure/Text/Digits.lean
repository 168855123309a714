import Enclosure.Text.Scan

/-!
This module contains the digits of bases up to sixteen.
-/

namespace Enclosure.Text

def digitValue (c : Char) : Nat :=
  if c.isDigit then c.toNat - '0'.toNat
  else if c.isLower then c.toNat - 'a'.toNat + 10
  else c.toNat - 'A'.toNat + 10

def isHexDigit (c : Char) : Bool :=
  c.isDigit || ('a' ≤ c && c ≤ 'f') || ('A' ≤ c && c ≤ 'F')

def ofDigits (base : Nat) (digits : List Char) : Nat :=
  digits.foldl (fun n c => base * n + digitValue c) 0

def scalar? (n : Nat) : Option Char :=
  if n.isValidChar then some (.ofNat n) else none

def hexScalar (n : Nat) : Scan Char := do
  let digits ← Scan.count isHexDigit n
  match scalar? (ofDigits 16 digits) with
  | some c => return c
  | none => failure

end Enclosure.Text
