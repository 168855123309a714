import Enclosure.Text.Digits
import Enclosure.Text.Split

/-!
This module contains the quoted texts of TOML.
-/

namespace Enclosure.Toml

def isPlain (c : Char) : Bool :=
  c = '\t' || (0x20 ≤ c.toNat && c.toNat ≠ 0x7F)

def acceptNewline : Scan Bool := do
  if ← Scan.accept '\n' then return true
  Scan.acceptAll ['\r', '\n']

def escaped : Scan Char := do
  match ← Scan.one fun _ => true with
  | 'b' => return '\x08'
  | 't' => return '\t'
  | 'n' => return '\n'
  | 'f' => return '\x0c'
  | 'r' => return '\r'
  | 'e' => return '\x1b'
  | '"' => return '"'
  | '\\' => return '\\'
  | 'x' => Text.hexScalar 2
  | 'u' => Text.hexScalar 4
  | 'U' => Text.hexScalar 8
  | _ => failure

def lineText (quote : Char) : (fuel : Nat) → Scan (List Char)
  | 0 => failure
  | fuel + 1 => do
    if ← Scan.accept quote then return []
    let c ← Scan.one isPlain
    let c ← if c = '\\' ∧ quote = '"' then escaped else pure c
    return c :: (← lineText quote fuel)

def skipBlankLines : (fuel : Nat) → Scan Unit
  | 0 => return
  | fuel + 1 => do
    let _ ← Scan.takeWhile Text.isSpace
    if ← acceptNewline then skipBlankLines fuel

-- Blanks and line ends, at least one line end, after a backslash at the end of a line.
def continuation : Scan Bool := do
  let rest ← get
  let _ ← Scan.takeWhile Text.isSpace
  if ← acceptNewline then
    skipBlankLines rest.length
    return true
  set rest
  return false

-- The rest of a text of several lines, whose line ends stay as they are. The first three quotes
-- that no further quote follows close it, so that up to two quotes may stand right before them.
def blockText (quote : Char) : (fuel : Nat) → Scan (List Char)
  | 0 => failure
  | fuel + 1 => do
    if ← Scan.acceptAll [quote, quote, quote] then
      if !(← Scan.accept quote) then return []
      if !(← Scan.accept quote) then return [quote]
      return [quote, quote]
    if ← Scan.accept '\n' then return '\n' :: (← blockText quote fuel)
    if ← Scan.acceptAll ['\r', '\n'] then return '\r' :: '\n' :: (← blockText quote fuel)
    let c ← Scan.one isPlain
    if c = '\\' ∧ quote = '"' then
      if ← continuation then blockText quote fuel
      else
        let c ← escaped
        return c :: (← blockText quote fuel)
    else return c :: (← blockText quote fuel)

def lineText? : Scan (Option (List Char)) := do
  let size := (← get).length
  if ← Scan.accept '"' then return some (← lineText '"' size)
  if ← Scan.accept '\'' then return some (← lineText '\'' size)
  return none

-- A text of several lines, if there is one. A line end right after the opening is left out.
def blockText? : Scan (Option (List Char)) := do
  let size := (← get).length
  if ← Scan.acceptAll ['"', '"', '"'] then
    let _ ← acceptNewline
    return some (← blockText '"' size)
  if ← Scan.acceptAll ['\'', '\'', '\''] then
    let _ ← acceptNewline
    return some (← blockText '\'' size)
  return none

end Enclosure.Toml
