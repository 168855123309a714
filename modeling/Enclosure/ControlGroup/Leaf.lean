import Enclosure.ControlGroup.Content
import Enclosure.Limits

/-!
This module contains the leaves of a supervisor's tree: one control group for each enclosure, with
its limits in force before anything runs in it.
-/

namespace Enclosure.ControlGroup

open FileSystem

variable {σ : Type} [FileSystem σ]

/-- The tree of a running supervisor. -/
structure Tree where
  base : String
  nextLeaf : UInt64 := 0
  deriving DecidableEq, Repr

def Tree.initPath (t : Tree) : String :=
  Path.join t.base "pid1"

/-- The control group of one enclosure. -/
structure Leaf where
  path : String
  removed : Bool := false
  deriving DecidableEq, Repr

namespace Leaf

def file (l : Leaf) (name : String) : String :=
  Path.join l.path name

def limitText (limit : Option Nat) : String :=
  (limit.map toString).getD "max"

def applyLimits (l : Leaf) (limits : GroupLimits) : GroupM σ Unit := do
  writeFile (l.file "pids.max") (limitText (limits.processes.map UInt32.toNat))
  writeFile (l.file "memory.max") (limitText (limits.memory.map UInt64.toNat))
  if limits.memory.isSome then writeOptional (l.file "memory.swap.max") "0"
  if let some b := limits.bandwidth then
    writeFile (l.file "cpu.max") s!"{b.quota} {b.period}"
  writeOptional (l.file "cgroup.pressure") "0"

def kill (l : Leaf) : GroupM σ Unit :=
  writeFile (l.file "cgroup.kill") "1"

def cpuTimes (l : Leaf) : GroupM σ CpuTime := do
  parseCpuStat (← readFile (l.file "cpu.stat"))

-- Kernels that do not record the peak tell the current use.
def peakMemory (l : Leaf) : GroupM σ UInt64 := do
  match ← (read (l.file "memory.peak") : StateM σ _) with
  | .ok content => parseNumber "memory.peak" content
  | .error e =>
    if e.isNotFound then
      parseNumber "memory.current" (← readFile (l.file "memory.current"))
    else throw (.io "read" (l.file "memory.peak") e)

def openDirectory (l : Leaf) : GroupM σ Unit :=
  ControlGroup.openDirectory l.path

def openCpuStat (l : Leaf) : GroupM σ Unit :=
  named "open" (l.file "cpu.stat") (openFile (l.file "cpu.stat"))

inductive Removal where
  | removed
  | busy
  | fault (f : GroupFault)
  deriving DecidableEq, Repr

def tryRemove (l : Leaf) : StateM σ (Removal × Leaf) := do
  if l.removed then return (.removed, l)
  match ← removeDirectory l.path with
  | .ok () => return (.removed, { l with removed := true })
  | .error e =>
    if e = .system .busy then return (.busy, l)
    else return (.fault (.io "rmdir" l.path e), l)

def removeWithin (l : Leaf) : (n : Nat) → StateM σ Unit
  | 0 => return
  | n + 1 => do
    match ← l.tryRemove with
    | (.busy, l) => l.removeWithin n
    | _ => return

/-- Kills what is left in the leaf and removes it if it can. -/
def drop (l : Leaf) : StateM σ Unit := do
  if !l.removed then
    let _ ← (l.kill : GroupM σ Unit).run
    l.removeWithin 100

end Leaf

namespace Tree

def leafPath (t : Tree) (n : UInt64) : String :=
  Path.join t.base s!"sandbox-{n}"

/-- Creates a leaf in a new directory with the limits applied. The number is used up whether this
succeeds or not, and a leaf whose limits cannot be applied is dropped. -/
def createLeaf (t : Tree) (limits : GroupLimits) : StateM σ (Except GroupFault Leaf × Tree) := do
  let path := t.leafPath t.nextLeaf
  let t := { t with nextLeaf := t.nextLeaf + 1 }
  match ← makeDirectory path 0o777 with
  | .error e => return (.error (.io "mkdir" path e), t)
  | .ok () =>
    let leaf : Leaf := { path }
    match ← (leaf.applyLimits limits : GroupM σ Unit).run with
    | .ok () => return (.ok leaf, t)
    | .error f =>
      leaf.drop
      return (.error f, t)

def openInit (t : Tree) : GroupM σ Unit :=
  openDirectory t.initPath

-- Removes what no process is left in. The supervisor's own group and the base still hold it, so
-- they are left to its client.
def drop (t : Tree) : StateM σ Unit := do
  let _ ← removeDirectory t.initPath

end Tree

end Enclosure.ControlGroup
