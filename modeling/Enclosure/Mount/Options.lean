import Enclosure.Mount.Basic

/-!
This module contains what the kernel is told about a mount.
-/

namespace Enclosure

namespace MountOp

-- The flags of a mount. Programs in it never gain rights, and the kernel stays silent.
def flags (readOnly noExec : Bool) : Nat :=
  2 + 32768 + (if readOnly then 1 else 0) + (if noExec then 8 else 0)

end MountOp

namespace Bind

def openFlags (m : Bind) : Nat :=
  1 + (if m.symlinkNofollow then 0x100 else 0) + (if m.recursive then 0x8000 else 0)

def attributes (m : Bind) : Nat :=
  2 + (if m.readOnly then 1 else 0) + (if m.noExec then 8 else 0)

end Bind

namespace Tmpfs

def octal (n : Nat) : String :=
  let digits := Nat.toDigits 8 n
  String.ofList (List.replicate (4 - digits.length) '0' ++ digits)

-- The size that is asked for, where zero would mean no limit.
def sizeOption (m : Tmpfs) : Nat :=
  match m.size with
  | none => 0
  | some n => max 1 n.toNat

-- The number of inodes, of which an empty file system takes some itself; one that does not fit 64
-- bits is no limit.
def inodeOption (m : Tmpfs) (emptyInodes : UInt64) : Nat :=
  match m.inodes with
  | none => 0
  | some n =>
    let total := n.toNat + emptyInodes.toNat
    if total < UInt64.size then total else 0

def options (m : Tmpfs) (emptyInodes : UInt64) : String :=
  s!"size={m.sizeOption},nr_inodes={m.inodeOption emptyInodes},mode="
    ++ octal (m.mode.toNat &&& 0o7777)

end Tmpfs

end Enclosure
