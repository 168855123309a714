import Enclosure.Errno

/-!
This module contains the ways in which reading and writing fails, those that the system reports and
those that are found out before or after asking it.
-/

namespace Enclosure

inductive IoFault where
  | system (errno : Errno)
  | nulInName
  | nulInPath
  | nulInArguments
  | notText
  | unexpectedEnd
  | notFound
  | tooManyDescriptors (limit : Nat)
  | descriptorsLost
  deriving DecidableEq, Repr

namespace IoFault

def message : IoFault → String
  | system e => e.systemText
  | nulInName => "file name contained an unexpected NUL byte"
  | nulInPath => "path contains a NUL byte"
  | nulInArguments => "nul byte found in provided data"
  | notText => "stream did not contain valid UTF-8"
  | unexpectedEnd => "failed to fill whole buffer"
  | notFound => "entity not found"
  | tooManyDescriptors limit => s!"at most {limit} file descriptors per message"
  | descriptorsLost => "too many file descriptors attached to one message"

-- The number behind the failure; one that the system did not report counts as an I/O error.
def errno : IoFault → Errno
  | system e => e
  | _ => .io

def isNotFound (f : IoFault) : Bool :=
  f = .system .noEntry || f = .notFound

end IoFault

end Enclosure
