import Enclosure.FileTree
import Enclosure.Signal

/-!
This module contains the start of a program, and what is told if it does not start.
-/

namespace Enclosure.Program

def notStarted : ProcessStatus :=
  .exited 127

/-- Why a program does not start, if it does not. Nothing but a file with a permission to execute
it does. -/
def startFault (t : FileTree) (argv : List String) : Option Errno :=
  match argv with
  | [] => some .invalid
  | path :: _ =>
    match t.find path with
    | .error e => some e.errno
    | .ok (_, .directory _) => some .access
    | .ok (_, .file mode _) => if mode &&& 0o111 = 0 then some .access else none

def report (argv : List String) (errno : Errno) : String :=
  let name := argv.headD "<none>"
  s!"execve({name}): {errno.describe}\n"

end Enclosure.Program
