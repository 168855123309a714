import Enclosure.FileSystem

/-!
This module contains file trees in which every directory is a control group. The files of a control
group go with it, and any call may fail.
-/

namespace Enclosure

-- Removes a directory that holds no other directories.
def FileTree.removeGroup (t : FileTree) (path : String) : Except IoFault FileTree := do
  let (place, e) ← t.find path
  if !e.isDirectory then throw (.system .notDirectory)
  if place.name.isNone then throw (.system (unnamed path))
  if (t.names place.path).any fun name => t.isDirectory (place.path ++ [name]) then
    throw (.system .busy)
  return ⟨t.entries.filter fun (q, _) => !place.path.isPrefixOf q⟩

structure Hierarchy where
  files : FileTree
  -- What the next calls fail with, where they do.
  faults : List (Option IoFault) := []

namespace Hierarchy

def attempt (a : StateM FileTree (Except IoFault α)) : StateM Hierarchy (Except IoFault α) :=
  fun h => match h.faults.head?.join with
    | some e => (.error e, { h with faults := h.faults.tail })
    | none => let (r, files) := a h.files; (r, { files, faults := h.faults.tail })

def ask (a : StateM FileTree α) : StateM Hierarchy α :=
  fun h => let (r, files) := a h.files; (r, { h with files })

instance : FileSystem Hierarchy where
  makeDirectory path mode := attempt (FileSystem.makeDirectory path mode)
  removeDirectory path := attempt (FileTree.change (·.removeGroup path))
  createFile path mode := attempt (FileSystem.createFile path mode)
  write path content := attempt (FileSystem.write path content)
  read path := attempt (FileSystem.read path)
  openFile path := attempt (FileSystem.openFile path)
  openDirectory path := attempt (FileSystem.openDirectory path)
  list path := attempt (FileSystem.list path)
  pathExists path := ask (FileSystem.pathExists path)
  isFile path := ask (FileSystem.isFile path)
  isDirectory path := ask (FileSystem.isDirectory path)

end Hierarchy

end Enclosure
