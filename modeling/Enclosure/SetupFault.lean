import Enclosure.ControlGroup.Basic
import Enclosure.Request.Validation

/-!
This module contains the reasons for which an enclosure cannot be built.
-/

namespace Enclosure

inductive SetupFault where
  | call (call : String) (errno : Errno)
  | invalid (reason : String)
  | request (fault : RequestFault)
  | group (fault : GroupFault)
  deriving DecidableEq, Repr

namespace SetupFault

def message : SetupFault → String
  | call c errno => s!"{c}: {errno.describe}"
  | invalid reason => reason
  | request fault => fault.message
  | group fault => fault.message

def ofIo (c : String) (fault : IoFault) : SetupFault :=
  .call c fault.errno

end SetupFault

end Enclosure
