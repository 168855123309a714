import Enclosure.IoFault
import Enclosure.Path

/-!
This module contains file trees of directories and regular files, and what the system calls on
paths do to them.
-/

namespace Enclosure

inductive Entry where
  | directory (mode : Nat)
  | file (mode : Nat) (content : String)
  deriving DecidableEq, Repr

namespace Entry

def isDirectory : Entry → Bool
  | directory _ => true
  | file .. => false

end Entry

/-- The entries below a root directory, each with the names on the way to it. -/
structure FileTree where
  entries : List (List String × Entry) := []
  deriving DecidableEq, Repr

namespace FileTree

def get? (t : FileTree) (p : List String) : Option Entry :=
  if p = [] then some (.directory 0o755) else t.entries.lookup p

def isDirectory (t : FileTree) (p : List String) : Bool :=
  (t.get? p).any Entry.isDirectory

def names (t : FileTree) (p : List String) : List String :=
  t.entries.filterMap fun (q, _) => if q.dropLast = p ∧ q ≠ [] then q.getLast? else none

def put (t : FileTree) (p : List String) (e : Entry) : FileTree :=
  if t.entries.any (·.1 = p) then
    ⟨t.entries.map fun (q, old) => (q, if q = p then e else old)⟩
  else ⟨t.entries ++ [(p, e)]⟩

def erase (t : FileTree) (p : List String) : FileTree :=
  ⟨t.entries.filter (·.1 ≠ p)⟩

def withDirectory (t : FileTree) (p : List String) : FileTree :=
  ((List.range (p.length + 1)).map p.take).foldl
    (fun t q => if (t.get? q).isNone then t.put q (.directory 0o755) else t) t

def withFile (t : FileTree) (p : List String) (content : String) : FileTree :=
  (t.withDirectory p.dropLast).put p (.file 0o644 content)

/-- Where a path leads: the directory that its last name is looked up in, and that name, unless the
path ends at a directory that has been reached already. -/
structure Place where
  directory : List String
  name : Option String
  -- A slash at the end asks for a directory.
  trailingSlash : Bool

namespace Place

def path (l : Place) : List String :=
  l.directory ++ l.name.toList

end Place

def creationMask : Nat := 0o022

def createdMode (allowed mode : Nat) : Nat :=
  (mode &&& allowed) - (mode &&& allowed &&& creationMask)

def maxName : Nat := 255

def maxPath : Nat := 4095

def locate (t : FileTree) (path : String) : Except IoFault Place :=
  if Path.hasNul path then .error .nulInName
  else if path.isEmpty then .error (.system .noEntry)
  else if path.utf8ByteSize > maxPath then .error (.system .nameTooLong)
  else walk [] ((Path.segments path).filter (· ≠ []))
where
  trailingSlash : Bool := path.toList.getLast? = some '/'
  walk (at_ : List String) : List (List Char) → Except IoFault Place
    | [] => .ok ⟨at_, none, trailingSlash⟩
    | s :: rest =>
      if s = ['.'] then walk at_ rest
      else if s = ['.', '.'] then walk at_.dropLast rest
      else
        let name := String.ofList s
        if name.utf8ByteSize > maxName then .error (.system .nameTooLong)
        else if rest.isEmpty then .ok ⟨at_, some name, trailingSlash⟩
        else match t.get? (at_ ++ [name]) with
          | none => .error (.system .noEntry)
          | some (.file ..) => .error (.system .notDirectory)
          | some (.directory _) => walk (at_ ++ [name]) rest

def find (t : FileTree) (path : String) : Except IoFault (Place × Entry) := do
  let place ← t.locate path
  match t.get? place.path with
  | none => throw (.system .noEntry)
  | some e =>
    if place.trailingSlash && !e.isDirectory then throw (.system .notDirectory)
    return (place, e)

def pathExists (t : FileTree) (path : String) : Bool :=
  (t.find path).isOk

def isFile (t : FileTree) (path : String) : Bool :=
  match t.find path with
  | .ok (_, .file ..) => true
  | _ => false

def openFile (t : FileTree) (path : String) : Except IoFault Unit := do
  let _ ← t.find path

def openDirectory (t : FileTree) (path : String) : Except IoFault Unit := do
  let (_, e) ← t.find path
  if !e.isDirectory then throw (.system .notDirectory)

def readFile (t : FileTree) (path : String) : Except IoFault String := do
  match ← t.find path with
  | (_, .file _ content) => return content
  | (_, .directory _) => throw (.system .isDirectory)

def writeFile (t : FileTree) (path content : String) : Except IoFault FileTree := do
  let place ← t.locate path
  if place.trailingSlash || place.name.isNone then throw (.system .isDirectory)
  match t.get? place.path with
  | some (.directory _) => throw (.system .isDirectory)
  | some (.file mode _) => return t.put place.path (.file mode content)
  | none => return t.put place.path (.file 0o644 content)

def createFile (t : FileTree) (path : String) (mode : Nat) : Except IoFault FileTree := do
  let place ← t.locate path
  if place.trailingSlash && place.name.isSome then throw (.system .isDirectory)
  if (t.get? place.path).isSome then throw (.system .exists_)
  return t.put place.path (.file (createdMode 0o7777 mode) "")

def makeDirectory (t : FileTree) (path : String) (mode : Nat) : Except IoFault FileTree := do
  let place ← t.locate path
  if (t.get? place.path).isSome then throw (.system .exists_)
  return t.put place.path (.directory (createdMode 0o1777 mode))

-- The number with which a directory cannot be removed whose path ends without a name.
def unnamed (path : String) : Errno :=
  match ((Path.segments path).filter (· ≠ [])).getLast? with
  | none => .busy
  | some s => if s = ['.', '.'] then .notEmpty else .invalid

def removeDirectory (t : FileTree) (path : String) : Except IoFault FileTree := do
  let (place, e) ← t.find path
  if !e.isDirectory then throw (.system .notDirectory)
  if place.name.isNone then throw (.system (unnamed path))
  if !(t.names place.path).isEmpty then throw (.system .notEmpty)
  return t.erase place.path

def listDirectory (t : FileTree) (path : String) : Except IoFault (List String) := do
  let (place, e) ← t.find path
  if !e.isDirectory then throw (.system .notDirectory)
  return t.names place.path

def below (t : FileTree) (p : List String) : FileTree :=
  ⟨t.entries.filterMap fun (q, e) =>
    if p.isPrefixOf q ∧ q ≠ p then some (q.drop p.length, e) else none⟩

def under (p : List String) (t : FileTree) : FileTree :=
  t.entries.foldl (fun r (q, e) => r.put (p ++ q) e) (FileTree.withDirectory {} p)

end FileTree

end Enclosure
