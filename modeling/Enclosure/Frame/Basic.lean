/-!
This module contains the framing of the byte streams between a client and its supervisor: every
frame is the length of its body, in four bytes with the lowest first, followed by the body.
-/

namespace Enclosure

inductive FrameError where
  | tooLarge (size : Nat)
  | truncated
  | trailingBytes (count : Nat)
  | invalidBool (byte : UInt8)
  | invalidNanos (nanos : UInt32)
  | invalidText
  | unknownTag (what : String) (tag : UInt8)
  | invalidMask (bits : UInt8)
  | missingDescriptors (expected received : Nat)
  | invalidStateChange (code : Int32)
  deriving DecidableEq, Repr

namespace Frame

def lengthSize : Nat := 4

def maxBody : Nat := 0x4000000

-- The `width` lowest bytes of a number, lowest first.
def littleEndian : (width : Nat) → Nat → List UInt8
  | 0, _ => []
  | width + 1, n => UInt8.ofNat n :: littleEndian width (n / 256)

def ofLittleEndian : List UInt8 → Nat
  | [] => 0
  | b :: bs => b.toNat + 256 * ofLittleEndian bs

@[simp]
theorem length_littleEndian (width n : Nat) : (littleEndian width n).length = width := by
  induction width generalizing n with
  | zero => rfl
  | succ width ih => simp [littleEndian, ih]

theorem ofLittleEndian_littleEndian (width n : Nat) (h : n < Nat.pow 256 width)
    : ofLittleEndian (littleEndian width n) = n := by
  induction width generalizing n with
  | zero =>
    have h : n < 1 := h
    simp [littleEndian, ofLittleEndian]
    omega
  | succ width ih =>
    have h : n < Nat.pow 256 width * 256 := h
    have : n / 256 < Nat.pow 256 width := by omega
    simp [littleEndian, ofLittleEndian, ih _ this]
    omega

/-- The length of the whole frame at the front of a buffer, once its prefix is there. -/
def length? (buf : List UInt8) : Except FrameError (Option Nat) :=
  let head := buf.take lengthSize
  if head.length < lengthSize then .ok none
  else
    let body := ofLittleEndian head
    if body > maxBody then .error (.tooLarge body) else .ok (some (lengthSize + body))

end Frame

open Enclosure.Frame in
def FrameError.message : FrameError → String
  | tooLarge size => s!"frame body of {size} bytes exceeds the limit of {maxBody} bytes"
  | truncated => "frame is truncated"
  | trailingBytes count => s!"frame has {count} unexpected trailing bytes"
  | invalidBool byte => s!"invalid boolean byte {byte}"
  | invalidNanos nanos => s!"invalid nanoseconds value {nanos}"
  | invalidText => "string is not valid UTF-8"
  | unknownTag what tag => s!"unknown {what} tag {tag}"
  | invalidMask bits =>
    "invalid file descriptor mask 0x" ++ String.ofList (Nat.toDigits 16 bits.toNat)
  | missingDescriptors expected received =>
    s!"frame expects {expected} file descriptors but {received} were received"
  | invalidStateChange code => s!"invalid si_code {code}"

end Enclosure
