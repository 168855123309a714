import Enclosure.Configuration.Basic
import Enclosure.Frame.Basic
import Enclosure.Request.Validation
import Enclosure.Signal

/-!
This module contains what a client can be told instead of a verdict.
-/

namespace Enclosure

inductive ClientFault where
  | launch (path : String) (cause : IoFault)
  | died (status : ProcessStatus) (diagnostics : String)
  | broken
  | request (fault : RequestFault)
  | frame (error : FrameError)
  | configuration (fault : ConfigurationFault)
  | io (cause : IoFault)
  deriving DecidableEq, Repr

namespace ClientFault

def message : ClientFault → String
  | launch path cause => s!"failed to spawn supervisor {path}: {cause.message}"
  | died status diagnostics =>
    s!"supervisor died unexpectedly ({status.describe}): {diagnostics}"
  | broken => "connection to the supervisor is broken"
  | request fault => fault.message
  | frame error => s!"failed to encode request: {error.message}"
  | configuration fault => fault.message
  | io cause => s!"supervisor connection: {cause.message}"

def causes (f : ClientFault) : List String :=
  match f with
  | launch _ cause | io cause => [f.message, cause.message]
  | frame error => [f.message, error.message]
  | configuration fault => fault.causes
  | _ => [f.message]

end ClientFault

/-- Why a handle is not redeemed: the call breaks the rules, and changes nothing. -/
inductive HandleFault where
  | foreign
  | outOfOrder
  deriving DecidableEq, Repr

def HandleFault.message : HandleFault → String
  | foreign => "request handle belongs to another supervisor connection"
  | outOfOrder => "request handles must be awaited in the order their requests were sent"

end Enclosure
