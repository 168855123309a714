import Enclosure.Duration
import Enclosure.Limits
import Enclosure.Mount.Basic

/-!
This module contains requests: what to run, with which descriptors and within which limits.
-/

namespace Enclosure

/-- One value for each descriptor that may come with a request, in the order of their bits. -/
structure Slots (α : Type) where
  stdin : α
  stdout : α
  stderr : α
  executable : α
  filter : α
  deriving DecidableEq, Repr

namespace Slots

def map (f : α → β) (s : Slots α) : Slots β :=
  ⟨f s.stdin, f s.stdout, f s.stderr, f s.executable, f s.filter⟩

def toList (s : Slots α) : List α :=
  [s.stdin, s.stdout, s.stderr, s.executable, s.filter]

def replicate (a : α) : Slots α :=
  ⟨a, a, a, a, a⟩

def present (s : Slots (Option α)) : List α :=
  s.toList.filterMap id

def mask (s : Slots (Option α)) : Slots Bool :=
  s.map Option.isSome

-- The mask as a number: the first slot is the lowest bit.
def bits (s : Slots Bool) : UInt8 :=
  s.toList.foldr (fun b n => 2 * n + if b then 1 else 0) 0

def count (s : Slots Bool) : Nat :=
  s.toList.count true

def ofBits? (n : UInt8) : Option (Slots Bool) :=
  if n < 32 then
    some ⟨n.toNat.testBit 0, n.toNat.testBit 1, n.toNat.testBit 2, n.toNat.testBit 3,
      n.toNat.testBit 4⟩
  else none

def fill (mask : Slots Bool) (values : List α) : Slots (Option α) :=
  let (stdin, values) := draw mask.stdin values
  let (stdout, values) := draw mask.stdout values
  let (stderr, values) := draw mask.stderr values
  let (executable, values) := draw mask.executable values
  let (filter, _) := draw mask.filter values
  ⟨stdin, stdout, stderr, executable, filter⟩
where
  draw : Bool → List α → Option α × List α
    | true, a :: as => (some a, as)
    | _, as => (none, as)

end Slots

/-- Everything about a request apart from the arguments of the program. `F` is how a descriptor
is held. -/
structure Options (F : Type) where
  env : List String := []
  descriptors : Slots (Option F) := .replicate none
  groupLimits : GroupLimits := {}
  processLimits : ProcessLimits := {}
  uid : Option UInt32 := none
  gid : Option UInt32 := none
  mounts : List MountOp := []
  newRoot : Option String := none
  timeLimit : Option Duration := none
  cpuTimeLimit : Option Duration := none
  deriving DecidableEq, Repr

structure Request (F : Type) extends Options F where
  argv : List String
  deriving DecidableEq, Repr

def defaultId : UInt32 := 1000

namespace Options

def effectiveUid (o : Options F) : UInt32 :=
  o.uid.getD defaultId

def effectiveGid (o : Options F) : UInt32 :=
  o.gid.getD defaultId

def withMemoryLimit (o : Options F) (bytes : UInt64) : Options F :=
  { o with groupLimits := { o.groupLimits with memory := some bytes } }

def withProcessLimit (o : Options F) (processes : UInt32) : Options F :=
  { o with groupLimits := { o.groupLimits with processes := some processes } }

def withMount (o : Options F) (op : MountOp) : Options F :=
  { o with mounts := o.mounts ++ [op] }

end Options

end Enclosure
