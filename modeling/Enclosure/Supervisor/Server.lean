import Enclosure.Frame.Request
import Enclosure.Frame.Verdict

/-!
This module contains the queues of a supervisor: requests come in as frames, some of them run at
once, and their verdicts go out in the order of the requests.
-/

namespace Enclosure.Supervisor

/-- A request that has been started; `id` counts the started requests from zero. -/
structure Task (F : Type) where
  id : Nat
  request : Request F
  result : Option Verdict := none
  deriving DecidableEq, Repr

def readChunk : Nat := 65536

-- Complete frames that may wait for a free slot before reading pauses.
def maxQueuedFrames : Nat := 4

structure Server (F : Type) where
  maxParallel : Nat
  inbuf : List UInt8 := []
  descriptors : List F := []
  -- Requests started and not yet answered, oldest first.
  inFlight : List (Task F) := []
  outbuf : List UInt8 := []
  -- Readiness was cleared while reading paused, so that input may wait without a new signal.
  unreadInput : Bool := false
  started : Nat := 0
  deriving DecidableEq, Repr

/-- The number of complete frames at the front of a buffer. -/
def queuedFrames (buf : List UInt8) : Nat :=
  match Frame.length? buf with
  | .ok (some n) =>
    if h : 0 < n ∧ n ≤ buf.length then queuedFrames (buf.drop n) + 1 else 0
  | _ => 0
termination_by buf.length
decreasing_by simp; omega

namespace Server

def new (maxParallel : Nat) : Server F :=
  { maxParallel := max 1 maxParallel }

def startOne (s : Server F) (size : Nat) : Server F × Option FrameError :=
  match Request.decode ((s.inbuf.take size).drop Frame.lengthSize) s.descriptors with
  | (.error e, descriptors) => ({ s with descriptors }, some e)
  | (.ok request, descriptors) =>
    ({ s with
      inbuf := s.inbuf.drop size
      descriptors
      inFlight := s.inFlight ++ [⟨s.started, request, none⟩]
      started := s.started + 1 }, none)

def startUpTo : (room : Nat) → Server F → Server F × Option FrameError
  | 0, s => (s, none)
  | room + 1, s =>
    match Frame.length? s.inbuf with
    | .error e => (s, some e)
    | .ok none => (s, none)
    | .ok (some size) =>
      if s.inbuf.length < size then (s, none)
      else match s.startOne size with
        | (s, some e) => (s, some e)
        | (s, none) => startUpTo room s

/-- Starts every complete frame while there is room. -/
def startBuffered (s : Server F) : Server F × Option FrameError :=
  s.startUpTo (s.maxParallel - s.inFlight.length)

def isFull (s : Server F) : Bool :=
  s.maxParallel ≤ s.inFlight.length

def isPaused (s : Server F) : Bool :=
  s.isFull && maxQueuedFrames ≤ queuedFrames s.inbuf

def receive (s : Server F) (bytes : List UInt8) (descriptors : List F) : Server F :=
  { s with inbuf := s.inbuf ++ bytes, descriptors := s.descriptors ++ descriptors }

def finishTask (s : Server F) (id : Nat) (verdict : Verdict) : Server F :=
  { s with
    inFlight := s.inFlight.map fun t => if t.id = id then { t with result := some verdict } else t }

/-- Takes the verdict of the oldest request in flight, if it is there, and queues its frame. -/
def respond (s : Server F) : Option (Server F × Option FrameError) :=
  match s.inFlight with
  | ⟨_, _, some verdict⟩ :: inFlight =>
    match verdict.encode with
    | .error e => some ({ s with inFlight }, some e)
    | .ok frame => some ({ s with inFlight, outbuf := s.outbuf ++ frame }, none)
  | _ => none

end Server

end Enclosure.Supervisor
