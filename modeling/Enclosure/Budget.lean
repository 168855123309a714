import Enclosure.Duration

/-!
This module contains the arithmetic of the two time limits. Nothing tells when a control group
crosses its processor time, so it is polled: after each poll the next one comes as soon as the rest
could be used up with every thread running.
-/

namespace Enclosure

def wordMax : Nat := UInt64.size - 1

-- Microseconds with a started one counted as whole. Those of the whole seconds are cut off before
-- the rest is added.
def Duration.microsUp (d : Duration) : Nat :=
  min wordMax (min wordMax (d.secs * 1000000) + (d.subsecNanos + 999) / 1000)

-- The timer of a limit on the passing of time; a timer of zero would never fire.
def wallTimer (limit : Duration) : Duration :=
  if limit.ns = 0 then .ofNanos 1 else limit

-- The moment `delay` from now, unless it is beyond what a clock of signed 64-bit seconds reaches.
def deadlineAfter? (now : Nat) (delay : Duration) : Option Nat :=
  if now + delay.ns < 0x8000000000000000 * 1000000000 then some (now + delay.ns) else none

def maxParallelism (processes : Option UInt32) (available : UInt64) : Nat :=
  let available := min available.toNat (UInt32.size - 1)
  max 1 (match processes with
    | none => available
    | some n => min n.toNat available)

/-- A limit on processor time: the count at which it is used up, and the fastest that it can be
used. -/
structure CpuBudget where
  endMicros : Nat
  parallelism : Nat
  deriving DecidableEq, Repr

namespace CpuBudget

def minRearm : Nat := 1000000

def minFirstArm : Nat := 1

inductive Check where
  | kill
  | rearm (delay : Duration)
  deriving DecidableEq, Repr

def ofLimit (start limit : Duration) (parallelism : UInt32) : CpuBudget where
  endMicros := min wordMax (start.microsUp + limit.microsUp)
  parallelism := max 1 parallelism.toNat

def delay (b : CpuBudget) (used floor : Nat) : Duration :=
  .ofNanos (max floor (min wordMax ((b.endMicros - used) * 1000 / b.parallelism)))

def firstArm (b : CpuBudget) (start : Duration) : Duration :=
  b.delay start.microsUp minFirstArm

def check (b : CpuBudget) (usage : Duration) : Check :=
  let used := min wordMax usage.micros
  if b.endMicros ≤ used then .kill else .rearm (b.delay used minRearm)

end CpuBudget

end Enclosure
