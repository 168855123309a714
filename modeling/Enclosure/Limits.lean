/-!
This module contains the two kinds of limits of a request: those of its control group and those
that apply to each of its processes.
-/

namespace Enclosure

/-- A share of processor time: at most `quota` microseconds in every `period`. -/
structure CpuBandwidth where
  quota : UInt32
  period : UInt32
  deriving DecidableEq, Repr

namespace CpuBandwidth

def isValid (b : CpuBandwidth) : Bool :=
  1000 ≤ b.period && b.period ≤ 1000000 && 1000 ≤ b.quota

end CpuBandwidth

/-- Limits of the whole control group; an absent one is no limit. -/
structure GroupLimits where
  processes : Option UInt32 := none
  memory : Option UInt64 := none
  bandwidth : Option CpuBandwidth := none
  deriving DecidableEq, Repr

/-- Limits of each process, soft and hard alike; an absent one is no limit. -/
structure ProcessLimits where
  addressSpace : Option UInt64 := none
  coreSize : Option UInt64 := some 0
  cpuSeconds : Option UInt64 := none
  fileSize : Option UInt64 := none
  openFiles : Option UInt64 := none
  stackSize : Option UInt64 := none
  deriving DecidableEq, Repr

end Enclosure
