import Enclosure.Binary64.Basic
import Enclosure.Duration

/-!
This module contains the durations that a number of seconds stands for.
-/

namespace Enclosure

inductive SecondsFault where
  | negative
  | tooLarge
  deriving DecidableEq, Repr

def SecondsFault.message : SecondsFault → String
  | negative => "cannot convert float seconds to Duration: value is negative"
  | tooLarge => "cannot convert float seconds to Duration: value is either too big or NaN"

/-- The duration nearest to a number of seconds, of two the one with an even number of
nanoseconds. -/
def Duration.ofSeconds (x : Binary64) : Except SecondsFault Duration :=
  match x with
  | .nan | .infinite false => .error .tooLarge
  | .infinite true => .error .negative
  | .finite negative mantissa scale =>
    let units := Binary64.units mantissa scale
    if negative && 0 < units then .error .negative
    else
      let ns := roundHalfEven (units * 1000000000) Binary64.one
      if h : ns < UInt64.size * 1000000000 then .ok ⟨ns, h⟩ else .error .tooLarge

end Enclosure
