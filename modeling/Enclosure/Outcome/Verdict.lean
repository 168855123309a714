import Enclosure.Outcome.Page

/-!
This module contains the verdict on an enclosure whose processes are all gone.
-/

namespace Enclosure.Outcome

structure Usage where
  start : Option (Duration × CpuTime)
  endTime : Option Duration
  finalCpu : CpuTime
  peakMemory : UInt64
  deriving DecidableEq, Repr

/-- Usage counts from the start of the program; without a start nothing has run. -/
def verdict (outcome : Outcome) (usage : Usage) (initStatus : ProcessStatus) : Verdict :=
  match outcome, usage.start with
  | .failed message, _ => .failed message
  | .none, _ =>
    .failed s!"pid1 process {initStatus.describe} without result or error message"
  | .ended status, .none =>
    .failed ("tracee process died unexpectedly before execveat() without an error message: "
      ++ status.describe)
  | .ended status, some (start, startCpu) =>
    .ran status ⟨usage.finalCpu.user - startCpu.user, usage.finalCpu.system - startCpu.system⟩
      usage.peakMemory ((usage.endTime.map (· - start)).getD .zero)

end Enclosure.Outcome
