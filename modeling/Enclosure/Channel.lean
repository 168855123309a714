import Enclosure.IoFault

/-!
This module contains a stream of bytes between two processes on which descriptors travel beside the
bytes. Descriptors come with the first byte of what they were sent with, and a receive that has got
some ends with those bytes.
-/

namespace Enclosure

structure Segment (F : Type) where
  bytes : List UInt8
  descriptors : List F
  deriving DecidableEq, Repr

/-- The bytes on the way to the receiving end, and whether the sending end is closed. -/
structure Channel (F : Type) where
  segments : List (Segment F) := []
  closed : Bool := false
  deriving DecidableEq, Repr

namespace Channel

def maxDescriptors : Nat := 16

def pending (c : Channel F) : List UInt8 :=
  c.segments.flatMap Segment.bytes

def close (c : Channel F) : Channel F :=
  { c with closed := true }

def send (c : Channel F) (bytes : List UInt8) (descriptors : List F)
    : Except IoFault Nat × Channel F :=
  if descriptors.length > maxDescriptors then (.error (.tooManyDescriptors maxDescriptors), c)
  else if bytes = [] then (.ok 0, c)
  else (.ok bytes.length, { c with segments := c.segments ++ [⟨bytes, descriptors⟩] })

def takeFrom (n : Nat) : List (Segment F) → List UInt8 × List F × List (Segment F)
  | [] => ([], [], [])
  | s :: rest =>
    if n < s.bytes.length then
      (s.bytes.take n, s.descriptors, ⟨s.bytes.drop n, []⟩ :: rest)
    else if s.descriptors.isEmpty && s.bytes.length < n then
      let (bytes, descriptors, rest) := takeFrom (n - s.bytes.length) rest
      (s.bytes ++ bytes, descriptors, rest)
    else (s.bytes, s.descriptors, rest)

/-- Receives up to `n` bytes. No bytes at all are the end of the stream; without an end there is
nothing to receive yet. More descriptors than may go with one send are lost, and so are the bytes
that they came with. -/
def receive (c : Channel F) (n : Nat) : Except IoFault (List UInt8 × List F) × Channel F :=
  if c.segments.isEmpty then
    (if c.closed then .ok ([], []) else .error (.system .again), c)
  else
    let (bytes, descriptors, rest) := takeFrom n c.segments
    let c := { c with segments := rest }
    if descriptors.length > maxDescriptors then (.error .descriptorsLost, c)
    else (.ok (bytes, descriptors), c)

end Channel

end Enclosure
