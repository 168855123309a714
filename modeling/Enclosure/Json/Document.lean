import Enclosure.Binary64.Decimal
import Enclosure.Settings.Basic
import Enclosure.Text.Digits

/-!
This module contains the reading of JSON documents as settings. The main function is
`Json.assignments?`, which fails for every text that is no JSON object.
-/

namespace Enclosure.Json

def maxDepth : Nat := 127

def skip : Scan Unit := do
  let _ ← Scan.takeWhile fun c => c = ' ' || c = '\t' || c = '\n' || c = '\r'

def unit : Scan Nat := do
  return Text.ofDigits 16 (← Scan.count Text.isHexDigit 4)

def unitScalar : Scan Char := do
  let high ← unit
  let n ←
    if 0xD800 ≤ high ∧ high < 0xDC00 then
      Scan.exact ['\\', 'u']
      let low ← unit
      if 0xDC00 ≤ low ∧ low < 0xE000 then
        pure (0x10000 + 0x400 * (high - 0xD800) + (low - 0xDC00))
      else failure
    else pure high
  match Text.scalar? n with
  | some c => return c
  | none => failure

def escaped : Scan Char := do
  match ← Scan.one fun _ => true with
  | '"' => return '"'
  | '\\' => return '\\'
  | '/' => return '/'
  | 'b' => return '\x08'
  | 'f' => return '\x0c'
  | 'n' => return '\n'
  | 'r' => return '\r'
  | 't' => return '\t'
  | 'u' => unitScalar
  | _ => failure

def text : (fuel : Nat) → Scan (List Char)
  | 0 => failure
  | fuel + 1 => do
    match ← Scan.one fun c => 0x20 ≤ c.toNat with
    | '"' => return []
    | '\\' =>
      let c ← escaped
      return c :: (← text fuel)
    | c => return c :: (← text fuel)

def digits : Scan (List Char) := do
  let ds ← Scan.takeWhile Char.isDigit
  if ds.isEmpty then failure else return ds

-- A number: a whole one of 64 bits with a sign, or else a binary64 one, which has to fit.
def number : Scan Setting := do
  let negative ← Scan.accept '-'
  let whole ← digits
  if whole.length > 1 ∧ whole.head? = some '0' then failure
  let fraction ← if ← Scan.accept '.' then do pure ('.' :: (← digits)) else pure []
  let c ← Scan.peek
  let exponent ←
    if c = some 'e' ∨ c = some 'E' then do
      let _ ← Scan.one fun _ => true
      let c ← Scan.peek
      let sign ← if c = some '+' ∨ c = some '-' then do pure [← Scan.one fun _ => true] else pure []
      pure ('e' :: sign ++ (← digits))
    else pure []
  let n := Text.ofDigits 10 whole
  if fraction.isEmpty ∧ exponent.isEmpty ∧ n ≤ 0x8000000000000000 - (if negative then 0 else 1)
      ∧ (!negative ∨ n ≠ 0) then
    return .integer (if negative then -n else n)
  match Binary64.decimal? negative (whole ++ fraction ++ exponent) with
  | some (.finite sign m k) => return .real (.finite sign m k)
  | _ => failure

mutual

def value : (fuel depth : Nat) → Scan Setting
  | 0, _ => failure
  | fuel + 1, depth => do
    skip
    if ← Scan.accept '"' then return .text (String.ofList (← text fuel))
    if ← Scan.accept '[' then
      if depth = 0 then failure
      skip
      if !(← Scan.accept ']') then items fuel (depth - 1)
      return .list
    if ← Scan.accept '\x7b' then
      if depth = 0 then failure
      let _ ← members fuel (depth - 1)
      return .table
    if ← Scan.acceptAll "null".toList then return .absent
    if ← Scan.acceptAll "true".toList then return .boolean true
    if ← Scan.acceptAll "false".toList then return .boolean false
    number

def items : (fuel depth : Nat) → Scan Unit
  | 0, _ => failure
  | fuel + 1, depth => do
    let _ ← value fuel depth
    skip
    if ← Scan.accept ',' then items fuel depth else Scan.exact [']']

def members : (fuel depth : Nat) → Scan Assignments
  | 0, _ => failure
  | fuel + 1, depth => do
    skip
    if ← Scan.accept '\x7d' then return []
    rows fuel depth

def rows : (fuel depth : Nat) → Scan Assignments
  | 0, _ => failure
  | fuel + 1, depth => do
    skip
    Scan.exact ['"']
    let name ← text fuel
    skip
    Scan.exact [':']
    let v ← value fuel depth
    skip
    if ← Scan.accept ',' then
      return (String.ofList name, v) :: (← rows fuel depth)
    Scan.exact ['\x7d']
    return [(String.ofList name, v)]

end

def object (fuel : Nat) : Scan Assignments := do
  skip
  Scan.exact ['\x7b']
  let s ← members fuel (maxDepth - 1)
  skip
  return s

/-- The members of an object. -/
def assignments? (content : String) : Option Assignments :=
  Scan.all? (object (2 * content.length + 2)) content.toList

end Enclosure.Json
