import Enclosure.Toml.Date
import Enclosure.Toml.Number
import Enclosure.Toml.Quoted
import Enclosure.Toml.Table

/-!
This module contains the reading of TOML documents. The main function is `Toml.assignments?`, which
fails for every text that is no document.
-/

namespace Enclosure.Toml

-- Lists and tables within a value may be nested this deep, and a key has so many parts at most.
def maxDepth : Nat := 80

def skipToLineEnd : Scan Unit := do
  let _ ← Scan.takeWhile Text.isSpace
  if ← Scan.accept '#' then
    let _ ← Scan.takeWhile isPlain

def skipLines : (fuel : Nat) → Scan Unit
  | 0 => return
  | fuel + 1 => do
    skipToLineEnd
    if ← acceptNewline then skipLines fuel

def keyPart : Scan String := do
  match ← lineText? with
  | some cs => return String.ofList cs
  | none =>
    let cs ← Scan.takeWhile Settings.isNameChar
    if cs.isEmpty then failure else return String.ofList cs

def key : (count : Nat) → Scan (List String)
  | 0 => failure
  | count + 1 => do
    let _ ← Scan.takeWhile Text.isSpace
    let part ← keyPart
    let _ ← Scan.takeWhile Text.isSpace
    if ← Scan.accept '.' then return part :: (← key count) else return [part]

def isScalarChar (c : Char) : Bool :=
  Settings.isNameChar c || c = '+' || c = '.' || c = ':'

-- A number, a date or a word. A blank may separate a date from a time.
def scalar : Scan Setting := do
  let word ← Scan.takeWhile isScalarChar
  let more ← get
  let next := (more.drop 1).takeWhile isScalarChar
  if more.head? = some ' ' ∧ (Scan.all? date word).isSome ∧ (next.head?.map Char.isDigit).getD false
  then
    set ((more.drop 1).dropWhile isScalarChar)
    match moment? (word ++ ' ' :: next) with
    | some v => return v
    | none => failure
  else if word = "true".toList then return .boolean true
  else if word = "false".toList then return .boolean false
  else match (number? word).or (moment? word) with
    | some v => return v
    | none => failure

mutual

def value : (fuel depth : Nat) → Scan Setting
  | 0, _ => failure
  | fuel + 1, depth => do
    if let some cs ← blockText? then return .text (String.ofList cs)
    if let some cs ← lineText? then return .text (String.ofList cs)
    if ← Scan.accept '[' then
      if depth = 0 then failure
      items fuel (depth - 1)
      return .list
    if ← Scan.accept '\x7b' then
      if depth = 0 then failure
      rows fuel (depth - 1) []
      return .table
    scalar

def items : (fuel depth : Nat) → Scan Unit
  | 0, _ => failure
  | fuel + 1, depth => do
    skipLines fuel
    if ← Scan.accept ']' then return
    let _ ← value fuel depth
    skipLines fuel
    if ← Scan.accept ',' then items fuel depth
    else Scan.exact [']']

def rows : (fuel depth : Nat) → Rows → Scan Unit
  | 0, _, _ => failure
  | fuel + 1, depth, known => do
    skipLines fuel
    if ← Scan.accept '\x7d' then return
    let name ← key maxDepth
    skipLines fuel
    Scan.exact ['=']
    skipLines fuel
    let v ← value fuel depth
    match known.assign v name with
    | none => failure
    | some known =>
      skipLines fuel
      if ← Scan.accept ',' then rows fuel depth known
      else Scan.exact ['\x7d']

end

structure State where
  rows : Rows := []
  header : List String := []

def State.openHeader (s : State) (path : List String) (isElement : Bool) : Option State := do
  let name ← path.getLast?
  let f := if isElement then Rows.openElement name else Rows.openTable name
  return { rows := ← s.rows.inside f path.dropLast, header := path }

def State.assign (s : State) (key : List String) (value : Setting) : Option State := do
  return { s with rows := ← s.rows.inside (Rows.assign value key) s.header }

def expression (s : State) : Scan State := do
  let size := (← get).length
  let _ ← Scan.takeWhile Text.isSpace
  match ← Scan.peek with
  | none => return s
  | some c =>
    if c = '\n' ∨ c = '\r' ∨ c = '#' then return s
    if ← Scan.accept '[' then
      let isElement ← Scan.accept '['
      let path ← key maxDepth
      Scan.exact (if isElement then [']', ']'] else [']'])
      match s.openHeader path isElement with
      | some s => return s
      | none => failure
    let name ← key maxDepth
    Scan.exact ['=']
    let _ ← Scan.takeWhile Text.isSpace
    let v ← value (2 * size) maxDepth
    match s.assign name v with
    | some s => return s
    | none => failure

def document : (fuel : Nat) → State → Scan State
  | 0, _ => failure
  | fuel + 1, s => do
    let s ← expression s
    skipToLineEnd
    if ← Scan.isAtEnd then return s
    if ← acceptNewline then document fuel s else failure

/-- The settings at the top of a document, which may start with a byte order mark. -/
def assignments? (content : String) : Option Assignments := do
  let cs := (afterStart? ['\ufeff'] content.toList).getD content.toList
  let s ← Scan.all? (document (cs.length + 1) {}) cs
  return s.rows.map fun (name, node) => (name, node.toSetting)

end Enclosure.Toml
