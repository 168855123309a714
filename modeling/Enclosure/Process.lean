import Enclosure.Errno
import Enclosure.Signal

/-!
This module contains child processes as their parent sees them.
-/

namespace Enclosure

/-- A child process: how it has ended, if it has, and whether its parent has been told. -/
structure Child where
  ended : Option ProcessStatus := none
  reaped : Bool := false
  deriving DecidableEq, Repr

namespace Child

def exitStatus (code : Int) : ProcessStatus :=
  .exited (.ofInt (code % 256))

def exit (c : Child) (code : Int) : Child :=
  { c with ended := c.ended.getD (exitStatus code) }

-- A child that has not ended before ends by the signal with a number, which need not be a
-- standard one.
def endBy (c : Child) (number : Int32) : Child :=
  { c with ended := c.ended.getD ⟨.killed, number⟩ }

def signal (c : Child) (s : Signal) : Child :=
  c.endBy s.number

def hasEnded (c : Child) : Bool :=
  c.ended.isSome

-- The status of a child that has ended, which is told once; `none` while it runs.
def tryWait (c : Child) : Except Errno (Option ProcessStatus) × Child :=
  if c.reaped then (.error .noChild, c)
  else match c.ended with
    | none => (.ok none, c)
    | some s => (.ok (some s), { c with reaped := true })

end Child

end Enclosure
