import Enclosure.Duration
import Enclosure.Signal

/-!
This module contains the outcome of one request.
-/

namespace Enclosure

structure CpuTime where
  user : Duration
  system : Duration
  deriving DecidableEq, Repr, Inhabited

def CpuTime.total? (t : CpuTime) : Option Duration :=
  t.user.add? t.system

def CpuTime.zero : CpuTime := ⟨.zero, .zero⟩

/-- Whatever a program did, even being killed for exceeding a limit, is `ran`; `failed` says that
its enclosure could not be built and nothing ran. -/
inductive Verdict where
  | ran (status : ProcessStatus) (cpu : CpuTime) (peakMemory : UInt64) (runtime : Duration)
  | failed (description : String)
  deriving DecidableEq, Repr

namespace Verdict

def isRan : Verdict → Bool
  | ran .. => true
  | failed _ => false

def status? : Verdict → Option ProcessStatus
  | ran status .. => some status
  | failed _ => none

end Verdict

end Enclosure
