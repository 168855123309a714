import Enclosure.Frame.Item

/-!
This module contains the reading of typed values from the front of a body. A reader that fails
keeps what it has consumed before the value that it could not read.
-/

namespace Enclosure

/-- Consumes a body from its front. -/
abbrev Reader := ExceptT FrameError (StateM (List UInt8))

namespace Reader

open Enclosure.Frame

def on (r : Reader α) (body : List UInt8) : Except FrameError α × List UInt8 :=
  r.run body

-- The next `n` bytes; takes nothing if there are fewer.
def take (n : Nat) : Reader (List UInt8) := do
  let rest ← get
  let head := rest.take n
  if head.length < n then throw .truncated
  set (rest.drop n)
  return head

def number (width : Nat) : Reader Nat :=
  ofLittleEndian <$> take width

def u8 : Reader UInt8 :=
  UInt8.ofNat <$> number 1

def bool : Reader Bool := do
  let b ← u8
  if b = 0 then return false
  if b = 1 then return true
  throw (.invalidBool b)

def u32 : Reader UInt32 :=
  UInt32.ofNat <$> number 4

def i32 : Reader Int32 :=
  UInt32.toInt32 <$> u32

def u64 : Reader UInt64 :=
  UInt64.ofNat <$> number 8

def bytes : Reader (List UInt8) := do
  take (← number 4)

def text : Reader String := do
  match String.fromUTF8? (← bytes).toByteArray with
  | some s => return s
  | none => throw .invalidText

def times (r : Reader α) : Nat → Reader (List α)
  | 0 => return []
  | n + 1 => do
    let a ← r
    let as ← times r n
    return a :: as

-- Each text takes at least the four bytes of its length, so a count that cannot be met is refused
-- at once.
def texts : Reader (List String) := do
  let n ← number 4
  if n > (← get).length / 4 then throw .truncated
  times text n

def option (r : Reader α) : Reader (Option α) := do
  if ← bool then some <$> r else return none

def duration : Reader Duration := do
  let secs ← u64
  let nanos ← u32
  if h : nanos.toNat < 1000000000 then return .ofParts secs nanos.toNat h
  throw (.invalidNanos nanos)

def finish : Reader Unit := do
  let rest ← get
  if rest ≠ [] then throw (.trailingBytes rest.length)

end Reader

namespace Item

inductive Kind where
  | u8
  | bool
  | u32
  | i32
  | u64
  | bytes
  | text
  | texts
  | optU32
  | optU64
  | optText
  | duration
  | optDuration
  deriving DecidableEq, Repr

def kind : Item → Kind
  | u8 _ => .u8
  | bool _ => .bool
  | u32 _ => .u32
  | i32 _ => .i32
  | u64 _ => .u64
  | bytes _ => .bytes
  | text _ => .text
  | texts _ => .texts
  | optU32 _ => .optU32
  | optU64 _ => .optU64
  | optText _ => .optText
  | duration _ => .duration
  | optDuration _ => .optDuration

/-- Reads a value of the given type. -/
def read : Kind → Reader Item
  | .u8 => u8 <$> Reader.u8
  | .bool => bool <$> Reader.bool
  | .u32 => u32 <$> Reader.u32
  | .i32 => i32 <$> Reader.i32
  | .u64 => u64 <$> Reader.u64
  | .bytes => bytes <$> Reader.bytes
  | .text => text <$> Reader.text
  | .texts => texts <$> Reader.texts
  | .optU32 => optU32 <$> Reader.option Reader.u32
  | .optU64 => optU64 <$> Reader.option Reader.u64
  | .optText => optText <$> Reader.option Reader.text
  | .duration => duration <$> Reader.duration
  | .optDuration => optDuration <$> Reader.option Reader.duration

/-- Reads one value after the other, going on after a failure; the last result is that of
finding the end. -/
def readEach : List Kind → List UInt8 → List (Except FrameError Item) × Except FrameError Unit
  | [], body => ([], (Reader.finish.on body).1)
  | k :: ks, body =>
    let (item, rest) := (read k).on body
    let (items, last) := readEach ks rest
    (item :: items, last)

end Item

end Enclosure
