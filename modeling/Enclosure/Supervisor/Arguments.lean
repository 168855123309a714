import Enclosure.Supervisor.Fault
import Enclosure.Text.Number

/-!
This module contains the command line of a supervisor, which names its socket.
-/

namespace Enclosure.Supervisor

inductive OpenKind where
  | unixStream
  | unixDatagram
  | tcp
  | other
  deriving DecidableEq, Repr

/-- Checks that a descriptor is a stream socket between processes. -/
def checkSocket (kindOf : Nat → Option OpenKind) (fd : Nat) : Except SupervisorFault Unit :=
  match kindOf fd with
  | none => .error (.invalidDescriptor .badDescriptor)
  | some .other => .error (.invalidDescriptor .notSocket)
  | some .tcp => .error .invalidDomain
  | some .unixDatagram => .error .invalidType
  | some .unixStream => .ok ()

def programName : String := "confine-supervisor"

def socketOfArguments (kindOf : Nat → Option OpenKind) (args : List String)
    : Except SupervisorFault Nat :=
  match args with
  | [_, number] =>
    match (Text.signed? 32 number.toList).filter (0 ≤ ·) with
    | none => .error .invalidNumber
    | some fd => do
      checkSocket kindOf fd.toNat
      return fd.toNat
  | _ => .error (.usage (args.headD programName))

end Enclosure.Supervisor
