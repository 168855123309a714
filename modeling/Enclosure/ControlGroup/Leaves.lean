import Enclosure.ControlGroup.Leaf

/-!
This module contains the leaves of one tree in use. They are created, asked about, removed and
dropped in any order, and it is written down what every call comes to.
-/

namespace Enclosure.ControlGroup

inductive LeafCall where
  | openDirectory
  | openCpuStat
  | kill
  | cpuTimes
  | peakMemory
  | tryRemove
  | drop
  deriving DecidableEq, Repr

inductive TreeCall where
  | create (limits : GroupLimits)
  -- A call on the leaf that was asked for after `i` others.
  | on (i : Nat) (call : LeafCall)
  deriving DecidableEq, Repr

inductive TreeReply where
  | created (result : Except GroupFault Leaf)
  | done (result : Except GroupFault Unit)
  | times (result : Except GroupFault CpuTime)
  | memory (result : Except GroupFault UInt64)
  | removal (result : Leaf.Removal)
  | dropped
  | noLeaf

/-- A tree, with all the leaves that it has been asked for and the files that it is in. -/
structure Leaves (σ : Type) where
  tree : Tree
  -- Each leaf under its number. A leaf that could not be created, or has been dropped, is not
  -- there.
  asked : List (UInt64 × Option Leaf) := []
  files : σ

structure LeafTurn (σ : Type) where
  call : TreeCall
  number : Option UInt64
  reply : TreeReply
  before : Leaves σ
  after : Leaves σ

variable {σ : Type} [FileSystem σ]

def Leaf.perform (l : Leaf) : LeafCall → StateM σ (TreeReply × Option Leaf)
  | .openDirectory => do return (.done (← (l.openDirectory : GroupM σ Unit).run), some l)
  | .openCpuStat => do return (.done (← (l.openCpuStat : GroupM σ Unit).run), some l)
  | .kill => do return (.done (← (l.kill : GroupM σ Unit).run), some l)
  | .cpuTimes => do return (.times (← (l.cpuTimes : GroupM σ CpuTime).run), some l)
  | .peakMemory => do return (.memory (← (l.peakMemory : GroupM σ UInt64).run), some l)
  | .tryRemove => do
    let (result, l) ← l.tryRemove
    return (.removal result, some l)
  | .drop => do
    l.drop
    return (.dropped, none)

namespace Leaves

def turn (l : Leaves σ) (call : TreeCall) : LeafTurn σ :=
  match call with
  | .create limits =>
    let ((result, tree), files) := l.tree.createLeaf limits l.files
    { call, number := some l.tree.nextLeaf, reply := .created result, before := l
      after := { tree, asked := l.asked ++ [(l.tree.nextLeaf, result.toOption)], files } }
  | .on i c =>
    match l.asked[i]? with
    | some (n, some leaf) =>
      let ((reply, leaf), files) := leaf.perform c l.files
      { call, number := some n, reply, before := l
        after := { l with asked := l.asked.set i (n, leaf), files } }
    | some (n, none) => { call, number := some n, reply := .noLeaf, before := l, after := l }
    | none => { call, number := none, reply := .noLeaf, before := l, after := l }

def run (l : Leaves σ) : List TreeCall → List (LeafTurn σ)
  | [] => []
  | call :: calls => l.turn call :: run (l.turn call).after calls

end Leaves

end Enclosure.ControlGroup
