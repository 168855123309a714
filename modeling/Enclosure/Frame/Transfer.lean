import Enclosure.Channel
import Enclosure.Frame.Verdict

/-!
This module contains the moving of whole frames over a stream that takes and gives bytes in pieces
of any size.
-/

namespace Enclosure

inductive ReadFault where
  | io (fault : IoFault)
  | frame (error : FrameError)
  deriving DecidableEq, Repr

namespace Frame

inductive SendTurn where
  | interrupted
  | accepted (n : Nat)
  | failed (fault : IoFault)
  deriving DecidableEq, Repr

/-- Sends a frame piece by piece. A piece has at least one byte, and the descriptors go with the
first one. Once the turns are used up the rest is sent in one piece. -/
def sendPieces (frame : List UInt8) (descriptors : List F)
    : List SendTurn → Except IoFault Unit × List (Segment F)
  | [] => (.ok (), if frame.isEmpty then [] else [⟨frame, descriptors⟩])
  | turn :: turns =>
    if frame.isEmpty then (.ok (), [])
    else match turn with
      | .interrupted => sendPieces frame descriptors turns
      | .failed fault => (.error fault, [])
      | .accepted n =>
        let n := max 1 n
        let (result, pieces) := sendPieces (frame.drop n) [] turns
        (result, ⟨frame.take n, descriptors⟩ :: pieces)

/-- Sends a frame on a channel: what is left of it is sent again and again, as far as it is
accepted, and the descriptors go with the bytes that are accepted first. An interrupted send is
repeated. Once the turns are used up all of the rest is accepted. -/
def sendOn (c : Channel F) (frame : List UInt8) (descriptors : List F)
    : List SendTurn → Except IoFault Unit × Channel F
  | [] =>
    if frame.isEmpty then (.ok (), c)
    else
      let (sent, c) := c.send frame descriptors
      (sent.map fun _ => (), c)
  | turn :: turns =>
    if frame.isEmpty then (.ok (), c)
    else if descriptors.length > Channel.maxDescriptors then
      (.error (.tooManyDescriptors Channel.maxDescriptors), c)
    else match turn with
      | .interrupted => sendOn c frame descriptors turns
      | .failed fault => (.error fault, c)
      | .accepted n =>
        match c.send (frame.take (max 1 n)) descriptors with
        | (.ok sent, c) => sendOn c (frame.drop sent) [] turns
        | (.error fault, c) => (.error fault, c)

-- Reads exactly `n` bytes, at most so many at each turn and all that is asked for once the turns
-- are used up. At the end of the stream it has consumed everything.
def readExactly (n : Nat) (stream : List UInt8) : List Nat → Option (List UInt8) × List UInt8
  | [] => if stream.length < n then (none, []) else (some (stream.take n), stream.drop n)
  | turn :: turns =>
    let piece := stream.take (min n (max 1 turn))
    let (bytes, rest) := readExactly (n - piece.length) (stream.drop piece.length) turns
    (bytes.map (piece ++ ·), rest)

end Frame

namespace Verdict

open Enclosure.Frame in
/-- Reads the next verdict of a stream that ends after the given bytes, and returns what is left.
The turns are those of reading the length and the body. -/
def readFrom (stream : List UInt8) (lengthTurns bodyTurns : List Nat)
    : Except ReadFault Verdict × List UInt8 :=
  match readExactly lengthSize stream lengthTurns with
  | (none, rest) => (.error (.io .unexpectedEnd), rest)
  | (some head, rest) =>
    match Frame.length? head with
    | .error e => (.error (.frame e), rest)
    | .ok size =>
      match readExactly (size.getD lengthSize - lengthSize) rest bodyTurns with
      | (none, rest) => (.error (.io .unexpectedEnd), rest)
      | (some body, rest) => ((Verdict.decode body).mapError .frame, rest)

end Verdict

end Enclosure
