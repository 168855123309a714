import Enclosure.Budget

/-!
This module contains the polls of a control group that runs within a budget. The first one comes as
soon as the whole budget could be used up, and each of them decides whether and when the next one
comes.
-/

namespace Enclosure.CpuBudget

/-- The moment of the poll with a number, counted from zero. Moments are nanoseconds since the
program was started, when its group had used `start`; `usage` is what it has used at each moment. No
poll follows one that decides to kill. -/
def pollAt? (b : CpuBudget) (start : Duration) (usage : Nat → Duration) : Nat → Option Nat
  | 0 => some (b.firstArm start).ns
  | n + 1 => do
    let moment ← b.pollAt? start usage n
    match b.check (usage moment) with
    | .kill => none
    | .rearm delay => return moment + delay.ns

end Enclosure.CpuBudget
