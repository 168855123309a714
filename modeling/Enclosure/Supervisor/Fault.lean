import Enclosure.ControlGroup.Basic
import Enclosure.Frame.Basic

/-!
This module contains the reasons for which a supervisor ends.
-/

namespace Enclosure

inductive SupervisorFault where
  | runAsRoot
  | usage (program : String)
  | invalidNumber
  | invalidDescriptor (errno : Errno)
  | invalidDomain
  | invalidType
  | call (call : String) (errno : Errno)
  | io (fault : IoFault)
  | frame (error : FrameError)
  | group (fault : GroupFault)
  deriving DecidableEq, Repr

def SupervisorFault.message : SupervisorFault → String
  | runAsRoot => "supervisor is not safe to be run by root"
  | usage program => s!"Usage: {program} <unix socket file descriptor number>"
  | invalidNumber => "supervisor: invalid file descriptor number as argument"
  | invalidDescriptor errno =>
    s!"supervisor: invalid file descriptor (getsockopt(): {errno.describe})"
  | invalidDomain => "supervisor: invalid socket domain, expected AF_UNIX"
  | invalidType => "supervisor: invalid socket type, expected SOCK_STREAM"
  | call c errno => s!"supervisor: {c}: {errno.describe}"
  | io fault => s!"supervisor: socket: {fault.message}"
  | frame error => s!"supervisor: malformed frame: {error.message}"
  | group fault => s!"supervisor: cgroup: {fault.message}"

end Enclosure
