import Enclosure.Limits
import Enclosure.SetupFault

/-!
This module contains the setting of the limits of a process.
-/

namespace Enclosure

inductive Resource where
  | addressSpace
  | coreSize
  | cpuSeconds
  | fileSize
  | openFiles
  | stackSize
  deriving DecidableEq, Repr

namespace Resource

def name : Resource → String
  | addressSpace => "RLIMIT_AS"
  | coreSize => "RLIMIT_CORE"
  | cpuSeconds => "RLIMIT_CPU"
  | fileSize => "RLIMIT_FSIZE"
  | openFiles => "RLIMIT_NOFILE"
  | stackSize => "RLIMIT_STACK"

-- The largest number of open files that the kernel takes.
def openFilesMax : Nat := 0x40000000

def set (r : Resource) (limit : UInt64) : Except Errno Unit :=
  if r = openFiles ∧ limit.toNat > openFilesMax then .error .perm else .ok ()

end Resource

namespace ProcessLimits

def present (l : ProcessLimits) : List (Resource × UInt64) :=
  [(.addressSpace, l.addressSpace), (.coreSize, l.coreSize), (.cpuSeconds, l.cpuSeconds),
   (.fileSize, l.fileSize), (.openFiles, l.openFiles), (.stackSize, l.stackSize)].filterMap
    fun (r, limit) => limit.map fun v => (r, v)

/-- Applies limits in order up to the first that fails; tells which have been applied. -/
def applyAll : List (Resource × UInt64) → List Resource × Except SetupFault Unit
  | [] => ([], .ok ())
  | (r, limit) :: rest =>
    match r.set limit with
    | .error e => ([], .error (.call s!"prlimit({r.name})" e))
    | .ok () =>
      let (applied, result) := applyAll rest
      (r :: applied, result)

def apply (l : ProcessLimits) : List Resource × Except SetupFault Unit :=
  applyAll l.present

end ProcessLimits

end Enclosure
