import Enclosure.Frame.Reader
import Enclosure.Verdict

/-!
This module contains the frames of verdicts. Processor times travel in whole microseconds.
-/

namespace Enclosure

namespace Verdict

def items : Verdict → List Item
  | ran status cpu peakMemory runtime =>
    [.u8 0, .i32 status.change.code, .i32 status.value, .duration runtime,
     .u64 (.ofNat cpu.user.micros), .u64 (.ofNat cpu.system.micros), .u64 peakMemory]
  | failed description => [.u8 1, .text description]

def encode (v : Verdict) : Except FrameError (List UInt8) :=
  Frame.ofItems v.items

open Reader

def readStateChange : Reader StateChange := do
  let code ← i32
  match StateChange.ofCode? code with
  | some c => return c
  | none => throw (.invalidStateChange code)

def readFields : Reader Verdict := do
  let tag ← u8
  if tag = 0 then
    let change ← readStateChange
    let value ← i32
    let runtime ← duration
    let user ← u64
    let system ← u64
    let peakMemory ← u64
    return .ran ⟨change, value⟩ ⟨.ofMicros user, .ofMicros system⟩ peakMemory runtime
  else if tag = 1 then return .failed (← text)
  else throw (.unknownTag "response" tag)

def read : Reader Verdict := do
  let v ← readFields
  finish
  return v

def decode (body : List UInt8) : Except FrameError Verdict :=
  (read.on body).1

end Verdict

end Enclosure
