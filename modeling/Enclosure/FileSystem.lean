import Enclosure.FileTree

/-!
This module contains the system calls on paths that an enclosure makes, over any kind of state that
can answer them. A file tree is one.
-/

namespace Enclosure

/-- A state `σ` that answers system calls on paths, each of which may fail and may change it. -/
class FileSystem (σ : Type) where
  makeDirectory : String → Nat → StateM σ (Except IoFault Unit)
  removeDirectory : String → StateM σ (Except IoFault Unit)
  createFile : String → Nat → StateM σ (Except IoFault Unit)
  write : String → String → StateM σ (Except IoFault Unit)
  read : String → StateM σ (Except IoFault String)
  openFile : String → StateM σ (Except IoFault Unit)
  openDirectory : String → StateM σ (Except IoFault Unit)
  -- The names in a directory, each with whether it is a directory itself. Any of them may fail to
  -- be read.
  list : String → StateM σ (Except IoFault (List (Except IoFault (String × Bool))))
  pathExists : String → StateM σ Bool
  isFile : String → StateM σ Bool
  isDirectory : String → StateM σ Bool

namespace FileTree

def ask (f : FileTree → α) : StateM FileTree α :=
  fun t => (f t, t)

def change (f : FileTree → Except IoFault FileTree) : StateM FileTree (Except IoFault Unit) :=
  fun t => match f t with
    | .ok t' => (.ok (), t')
    | .error e => (.error e, t)

instance : FileSystem FileTree where
  makeDirectory path mode := change (·.makeDirectory path mode)
  removeDirectory path := change (·.removeDirectory path)
  createFile path mode := change (·.createFile path mode)
  write path content := change (·.writeFile path content)
  read path := ask (·.readFile path)
  openFile path := ask (·.openFile path)
  openDirectory path := ask (·.openDirectory path)
  list path := ask fun t => do
    let (place, _) ← t.find path
    let names ← t.listDirectory path
    return names.map fun n => .ok (n, t.isDirectory (place.path ++ [n]))
  pathExists path := ask (·.pathExists path)
  isFile path := ask (·.isFile path)
  isDirectory path := ask fun t => (t.openDirectory path).isOk

end FileTree

end Enclosure
