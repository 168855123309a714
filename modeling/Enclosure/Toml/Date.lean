import Enclosure.Settings.Basic
import Enclosure.Text.Digits

/-!
This module contains the dates and times of TOML. They are only checked and brought into one form.
-/

namespace Enclosure.Toml

def field (n low high : Nat) : Scan (List Char) := do
  let digits ← Scan.count Char.isDigit n
  let value := Text.ofDigits 10 digits
  if low ≤ value ∧ value ≤ high then return digits else failure

def isLeapYear (y : Nat) : Bool :=
  (y % 4 = 0 && y % 100 ≠ 0) || y % 400 = 0

def daysOfMonth (y m : Nat) : Nat :=
  if m = 2 then if isLeapYear y then 29 else 28
  else if m = 4 || m = 6 || m = 9 || m = 11 then 30
  else 31

def date : Scan (List Char) := do
  let year ← field 4 0 9999
  Scan.exact ['-']
  let month ← field 2 1 12
  Scan.exact ['-']
  let day ← field 2 1 (daysOfMonth (Text.ofDigits 10 year) (Text.ofDigits 10 month))
  return year ++ '-' :: month ++ '-' :: day

-- The digits of a second beyond the whole one. At most nine count, and zeros at the end do not,
-- but one digit stays.
def fraction : Scan (List Char) := do
  if ← Scan.accept '.' then
    let digits ← Scan.takeWhile Char.isDigit
    if digits.isEmpty then failure
    let kept := ((digits.take 9).reverse.dropWhile (· = '0')).reverse
    return '.' :: (if kept.isEmpty then ['0'] else kept)
  else return []

def time : Scan (List Char) := do
  let hour ← field 2 0 23
  Scan.exact [':']
  let minute ← field 2 0 59
  if ← Scan.accept ':' then
    let second ← field 2 0 60
    return hour ++ ':' :: minute ++ ':' :: second ++ (← fraction)
  else return hour ++ ':' :: minute

def offset : Scan (List Char) := do
  match ← Scan.peek with
  | none => return []
  | some c =>
    if c = 'Z' ∨ c = 'z' then
      Scan.exact [c]
      return ['Z']
    else
      let sign ← Scan.one fun c => c = '+' || c = '-'
      let hour ← field 2 0 23
      Scan.exact [':']
      let minute ← field 2 0 59
      let zero := (hour ++ minute).all (· = '0')
      return (if zero then '+' else sign) :: hour ++ ':' :: minute

def dateAndTime : Scan (List Char) := do
  let date ← date
  if ← Scan.isAtEnd then return date
  let _ ← Scan.one fun c => c = 'T' || c = 't' || c = ' '
  let time ← time
  return date ++ 'T' :: time ++ (← offset)

/-- A date, a time, or both with or without an offset. -/
def moment? (s : List Char) : Option Setting :=
  let kind := if (s.drop 2).head? = some ':' then time else dateAndTime
  (Scan.all? kind s).map fun cs => .text (String.ofList cs)

end Enclosure.Toml
