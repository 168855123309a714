/-!
This module contains the steps that build the file system of an enclosure.
-/

namespace Enclosure

structure Tmpfs where
  path : String
  -- Total size of the files in bytes.
  size : Option UInt64 := none
  -- Number of files and directories, the root directory not counted.
  inodes : Option UInt64 := none
  mode : UInt32 := 0o755
  readOnly : Bool := false
  noExec : Bool := true
  deriving DecidableEq, Repr

structure Proc where
  path : String
  readOnly : Bool := false
  noExec : Bool := true
  deriving DecidableEq, Repr

structure Bind where
  source : String
  dest : String
  recursive : Bool := true
  readOnly : Bool := true
  noExec : Bool := true
  symlinkNofollow : Bool := false
  deriving DecidableEq, Repr

structure NewDirectory where
  path : String
  mode : UInt32 := 0o755
  deriving DecidableEq, Repr

structure NewFile where
  path : String
  mode : UInt32 := 0o644
  deriving DecidableEq, Repr

inductive MountOp where
  | tmpfs (m : Tmpfs)
  | proc (m : Proc)
  | bind (m : Bind)
  | directory (m : NewDirectory)
  | file (m : NewFile)
  deriving DecidableEq, Repr

def MountOp.paths : MountOp → List String
  | tmpfs m => [m.path]
  | proc m => [m.path]
  | bind m => [m.source, m.dest]
  | directory m => [m.path]
  | file m => [m.path]

namespace Tmpfs

def withSizeLimit (m : Tmpfs) (bytes : UInt64) : Tmpfs :=
  { m with size := some bytes }

def withInodeLimit (m : Tmpfs) (inodes : UInt64) : Tmpfs :=
  { m with inodes := some inodes }

end Tmpfs

end Enclosure
