import Enclosure.Frame.Reader
import Enclosure.Request.Basic

/-!
This module contains the frames of requests. Descriptors never appear in the bytes: they travel
beside them, and the body starts with a mask that tells which of them are there.
-/

namespace Enclosure

open Reader

namespace CpuBandwidth

def items (b : CpuBandwidth) : List Item :=
  [.u32 b.quota, .u32 b.period]

def read : Reader CpuBandwidth :=
  return { quota := ← u32, period := ← u32 }

end CpuBandwidth

namespace GroupLimits

def items (l : GroupLimits) : List Item :=
  [.optU32 l.processes, .optU64 l.memory, .bool l.bandwidth.isSome]
    ++ (l.bandwidth.map CpuBandwidth.items).getD []

def read : Reader GroupLimits :=
  return {
    processes := ← option u32
    memory := ← option u64
    bandwidth := ← option CpuBandwidth.read
  }

end GroupLimits

namespace ProcessLimits

def items (l : ProcessLimits) : List Item :=
  [l.addressSpace, l.coreSize, l.cpuSeconds, l.fileSize, l.openFiles, l.stackSize].map .optU64

def read : Reader ProcessLimits :=
  return {
    addressSpace := ← option u64
    coreSize := ← option u64
    cpuSeconds := ← option u64
    fileSize := ← option u64
    openFiles := ← option u64
    stackSize := ← option u64
  }

end ProcessLimits

namespace MountOp

def items : MountOp → List Item
  | tmpfs m =>
    [.u8 0, .text m.path, .optU64 m.size, .optU64 m.inodes, .u32 m.mode, .bool m.readOnly,
     .bool m.noExec]
  | proc m => [.u8 1, .text m.path, .bool m.readOnly, .bool m.noExec]
  | bind m =>
    [.u8 2, .text m.source, .text m.dest, .bool m.recursive, .bool m.readOnly, .bool m.noExec,
     .bool m.symlinkNofollow]
  | directory m => [.u8 3, .text m.path, .u32 m.mode]
  | file m => [.u8 4, .text m.path, .u32 m.mode]

def read : Reader MountOp := do
  let tag ← u8
  match tag.toNat with
  | 0 =>
    return .tmpfs {
      path := ← text
      size := ← option u64
      inodes := ← option u64
      mode := ← u32
      readOnly := ← bool
      noExec := ← bool
    }
  | 1 => return .proc { path := ← text, readOnly := ← bool, noExec := ← bool }
  | 2 =>
    return .bind {
      source := ← text
      dest := ← text
      recursive := ← bool
      readOnly := ← bool
      noExec := ← bool
      symlinkNofollow := ← bool
    }
  | 3 => return .directory { path := ← text, mode := ← u32 }
  | 4 => return .file { path := ← text, mode := ← u32 }
  | _ => throw (.unknownTag "mount operation" tag)

end MountOp

namespace Request

def headItems (r : Request F) : List Item :=
  [.u8 r.descriptors.mask.bits, .texts r.argv, .texts r.env]

def middleItems (r : Request F) : List Item :=
  r.groupLimits.items ++ r.processLimits.items
    ++ [.optU32 r.uid, .optU32 r.gid, .u32 (.ofNat r.mounts.length)]

def tailItems (r : Request F) : List Item :=
  r.mounts.flatMap MountOp.items
    ++ [.optText r.newRoot, .optDuration r.timeLimit, .optDuration r.cpuTimeLimit]

/-- The frame of a request and the descriptors that go with it. -/
def encode (r : Request F) : Except FrameError (List UInt8 × List F) := do
  r.headItems.forM Item.check
  Item.checkLength r.mounts.length
  let frame ← Frame.ofItems (r.headItems ++ r.middleItems ++ r.tailItems)
  return (frame, r.descriptors.present)

def readBody (descriptors : Slots (Option F)) : Reader (Request F) := do
  let argv ← texts
  let env ← texts
  let groupLimits ← GroupLimits.read
  let processLimits ← ProcessLimits.read
  let uid ← option u32
  let gid ← option u32
  let mounts ← times MountOp.read (← number 4)
  let newRoot ← option text
  let timeLimit ← option duration
  let cpuTimeLimit ← option duration
  finish
  return {
    argv, env, descriptors, groupLimits, processLimits, uid, gid, mounts, newRoot, timeLimit,
    cpuTimeLimit
  }

/-- The request of a body, and the descriptors that are left. The descriptors that the mask
claims are taken from the front of the list even if a later part of the body is malformed. -/
def decode (body : List UInt8) (descriptors : List F)
    : Except FrameError (Request F) × List F :=
  match u8.on body with
  | (.error e, _) => (.error e, descriptors)
  | (.ok bits, rest) =>
    match Slots.ofBits? bits with
    | none => (.error (.invalidMask bits), descriptors)
    | some mask =>
      if mask.count > descriptors.length then
        (.error (.missingDescriptors mask.count descriptors.length), descriptors)
      else
        let taken := descriptors.take mask.count
        (((readBody (mask.fill taken)).on rest).1, descriptors.drop mask.count)

end Request

end Enclosure
