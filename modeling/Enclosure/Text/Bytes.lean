/-!
This module contains the reading of bytes that should be UTF-8 but need not be, and the cutting of
bytes that are.
-/

namespace Enclosure.Text

def isContinuation (b : UInt8) : Bool :=
  0x80 ≤ b && b ≤ 0xBF

-- Whether the bytes of a text may be cut behind the first `n` of them: at their two ends, and in
-- front of a byte that does not continue a character.
def isBoundary (bytes : List UInt8) (n : Nat) : Bool :=
  n = 0 || match bytes[n]? with
    | some b => !isContinuation b
    | none => n = bytes.length

def boundaryFrom (bytes : List UInt8) : (n : Nat) → Nat
  | 0 => 0
  | n + 1 => if isBoundary bytes (n + 1) then n + 1 else boundaryFrom bytes n

def continuations? (first : UInt8) : Option (Nat × UInt8 × UInt8) :=
  if 0xC2 ≤ first && first ≤ 0xDF then some (1, 0x80, 0xBF)
  else if first = 0xE0 then some (2, 0xA0, 0xBF)
  else if first = 0xED then some (2, 0x80, 0x9F)
  else if 0xE1 ≤ first && first ≤ 0xEF then some (2, 0x80, 0xBF)
  else if first = 0xF0 then some (3, 0x90, 0xBF)
  else if 0xF1 ≤ first && first ≤ 0xF3 then some (3, 0x80, 0xBF)
  else if first = 0xF4 then some (3, 0x80, 0x8F)
  else none

def unfinished (first : UInt8) (rest : List UInt8) : Nat :=
  match continuations? first, rest with
  | some (n, low, high), b :: rest =>
    if low ≤ b && b ≤ high then ((rest.take (n - 1)).takeWhile isContinuation).length + 1 else 0
  | _, _ => 0

-- The characters of some bytes, with one replacement character for each beginning of a character
-- that is not completed and for each byte that begins none.
def repaired : (fuel : Nat) → List UInt8 → List Char
  | 0, _ => []
  | _, [] => []
  | fuel + 1, b :: bs =>
    match (b :: bs.take 3).toByteArray.utf8DecodeChar? 0 with
    | some c => c :: repaired fuel ((b :: bs).drop c.utf8Size)
    | none => '\ufffd' :: repaired fuel (bs.drop (unfinished b bs))

/-- The text of some bytes, which is repaired if they are not UTF-8. -/
def ofBytes (bytes : List UInt8) : String :=
  match String.fromUTF8? bytes.toByteArray with
  | some s => s
  | none => String.ofList (repaired bytes.length bytes)

end Enclosure.Text
