import Enclosure.FileSystem

/-!
This module contains file systems that write down every call, together with what it came to. Writing
it down changes nothing of what happens.
-/

namespace Enclosure

-- A system call on a path. Of the calls that only look at something, it does not matter here what
-- they have seen.
inductive FileCall where
  | makeDirectory (path : String) (mode : Nat) (result : Except IoFault Unit)
  | removeDirectory (path : String) (result : Except IoFault Unit)
  | createFile (path : String) (mode : Nat) (result : Except IoFault Unit)
  | write (path content : String) (result : Except IoFault Unit)
  | look (path : String)

/-- A state with the calls that led to it. -/
structure Recorded (σ : Type) where
  state : σ
  calls : List FileCall := []

namespace Recorded

variable {σ : Type}

def record (a : StateM σ α) (call : α → FileCall) : StateM (Recorded σ) α :=
  fun r =>
    let (x, state) := a r.state
    (x, { state, calls := r.calls ++ [call x] })

instance [FileSystem σ] : FileSystem (Recorded σ) where
  makeDirectory path mode := record (FileSystem.makeDirectory path mode) (.makeDirectory path mode)
  removeDirectory path := record (FileSystem.removeDirectory path) (.removeDirectory path)
  createFile path mode := record (FileSystem.createFile path mode) (.createFile path mode)
  write path content := record (FileSystem.write path content) (.write path content)
  read path := record (FileSystem.read path) fun _ => .look path
  openFile path := record (FileSystem.openFile path) fun _ => .look path
  openDirectory path := record (FileSystem.openDirectory path) fun _ => .look path
  list path := record (FileSystem.list path) fun _ => .look path
  pathExists path := record (FileSystem.pathExists path) fun _ => .look path
  isFile path := record (FileSystem.isFile path) fun _ => .look path
  isDirectory path := record (FileSystem.isDirectory path) fun _ => .look path

end Recorded

end Enclosure
