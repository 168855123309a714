import Enclosure.Proofs.Path
import Enclosure.Proofs.Request.Refusal

/-!
This module contains the conditions on a request, in the order in which they are checked. A request
is accepted exactly if all of them hold, and otherwise the first one that does not hold is told.
-/

namespace Enclosure

structure Condition where
  holds : Prop
  fault : RequestFault

/-- The result of checking some conditions one after another, up to the first that does not hold. -/
inductive Checked : List Condition → Except RequestFault Unit → Prop where
  | nil : Checked [] (.ok ())
  | holds {c : Condition} (h : c.holds) (rest : Checked cs x) : Checked (c :: cs) x
  | violated {c : Condition} (h : ¬ c.holds) : Checked (c :: cs) (.error c.fault)

namespace Checked

variable {cs ds : List Condition} {x y : Except RequestFault Unit}

theorem append (h : Checked cs x) (h' : Checked ds y)
    : Checked (cs ++ ds) (x >>= fun _ => y) := by
  induction h with
  | nil => exact h'
  | holds hc _ ih => exact holds hc ih
  | violated hc => exact violated hc

end Checked

namespace Path

end Path

namespace CpuBandwidth

end CpuBandwidth

namespace Request

variable {F : Type}

end Request

end Enclosure
