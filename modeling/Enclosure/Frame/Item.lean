import Enclosure.Duration
import Enclosure.Frame.Basic

/-!
This module contains the typed values that bodies are made of, and how a list of them is written
as a frame.
-/

namespace Enclosure

/-- A typed value of a body. -/
inductive Item where
  | u8 (v : UInt8)
  | bool (v : Bool)
  | u32 (v : UInt32)
  | i32 (v : Int32)
  | u64 (v : UInt64)
  | bytes (v : List UInt8)
  | text (v : String)
  | texts (v : List String)
  | optU32 (v : Option UInt32)
  | optU64 (v : Option UInt64)
  | optText (v : Option String)
  | duration (v : Duration)
  | optDuration (v : Option Duration)
  deriving DecidableEq, Repr

namespace Item

open Enclosure.Frame

def textSize (s : String) : Nat :=
  4 + s.utf8ByteSize

def textBytes (s : String) : List UInt8 :=
  littleEndian 4 s.utf8ByteSize ++ s.toUTF8.data.toList

def concat (bytes : α → List UInt8) (l : List α) : List UInt8 :=
  l.foldr (fun a rest => bytes a ++ rest) []

theorem concat_eq_flatMap (bytes : α → List UInt8) (l : List α)
    : concat bytes l = l.flatMap bytes := by
  induction l with
  | nil => rfl
  | cons a l ih => simp [concat, List.flatMap_cons] at ih ⊢; rw [ih]

def durationBytes (d : Duration) : List UInt8 :=
  littleEndian 8 d.secs ++ littleEndian 4 d.subsecNanos

def boolByte (b : Bool) : UInt8 :=
  if b then 1 else 0

def optionBytes (bytes : α → List UInt8) : Option α → List UInt8
  | none => [0]
  | some v => 1 :: bytes v

def encode : Item → List UInt8
  | u8 v => [v]
  | bool v => [boolByte v]
  | u32 v => littleEndian 4 v.toNat
  | i32 v => littleEndian 4 v.toUInt32.toNat
  | u64 v => littleEndian 8 v.toNat
  | bytes v => littleEndian 4 v.length ++ v
  | text v => textBytes v
  | texts v => littleEndian 4 v.length ++ concat textBytes v
  | optU32 v => optionBytes (fun v => littleEndian 4 v.toNat) v
  | optU64 v => optionBytes (fun v => littleEndian 8 v.toNat) v
  | optText v => optionBytes textBytes v
  | duration v => durationBytes v
  | optDuration v => optionBytes durationBytes v

def totalSize (size : α → Nat) (l : List α) : Nat :=
  l.foldr (fun a n => size a + n) 0

def size : Item → Nat
  | u8 _ | bool _ => 1
  | u32 _ | i32 _ => 4
  | u64 _ => 8
  | bytes v => 4 + v.length
  | text v => textSize v
  | texts v => 4 + totalSize textSize v
  | optU32 v => if v.isSome then 5 else 1
  | optU64 v => if v.isSome then 9 else 1
  | optText v => 1 + (v.map textSize).getD 0
  | duration _ => 12
  | optDuration v => if v.isSome then 13 else 1

def checkLength (n : Nat) : Except FrameError Unit :=
  if n < UInt32.size then .ok () else .error (.tooLarge n)

def check : Item → Except FrameError Unit
  | bytes v => checkLength v.length
  | text v => checkLength v.utf8ByteSize
  | texts v => do
    checkLength v.length
    v.forM fun s => checkLength s.utf8ByteSize
  | optText (some v) => checkLength v.utf8ByteSize
  | _ => .ok ()

end Item

namespace Frame

/-- The frame of a body with these values. -/
def ofItems (items : List Item) : Except FrameError (List UInt8) := do
  items.forM Item.check
  let size := Item.totalSize Item.size items
  if size > maxBody then throw (.tooLarge size)
  return littleEndian lengthSize size ++ Item.concat Item.encode items

end Frame

end Enclosure
