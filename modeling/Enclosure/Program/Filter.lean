import Enclosure.Frame.Basic
import Enclosure.SetupFault

/-!
This module contains the system call filter of a program: how it is read from a file, when it can be
installed, and what is installed then.
-/

namespace Enclosure

-- A file that is open for reading, with the position of the next plain read.
structure OpenFile where
  content : List UInt8
  position : Nat
  deriving DecidableEq, Repr

namespace OpenFile

def chunk : Nat := 4096

-- How a read goes: it is interrupted, gives at most so many bytes, or fails otherwise.
inductive Turn where
  | interrupted
  | upTo (n : Nat)
  | failed (fault : IoFault)
  deriving DecidableEq, Repr

-- A read at an offset, which gives at least one byte unless the file ends there. The position of
-- the file plays no part and stays as it is.
def readAt (f : OpenFile) (offset n : Nat) : List UInt8 × OpenFile :=
  ((f.content.drop offset).take (min (max 1 n) chunk), f)

/-- Reads at the offset reached so far, until nothing more comes. There is no result if the turns
run out before. -/
def readWhole (f : OpenFile) (data : List UInt8)
    : List Turn → Option (Except IoFault (List UInt8)) × OpenFile
  | [] => (none, f)
  | .interrupted :: turns => f.readWhole data turns
  | .failed fault :: _ => (some (.error fault), f)
  | .upTo n :: turns =>
    let (got, f) := f.readAt data.length n
    if got = [] then (some (.ok data), f) else f.readWhole (data ++ got) turns

def fullTurns (f : OpenFile) : List Turn :=
  List.replicate (f.content.length + 1) (.upTo chunk)

def contentAtStart (f : OpenFile) : List UInt8 :=
  match (f.readWhole [] f.fullTurns).1 with
  | some (.ok data) => data
  | _ => []

end OpenFile

namespace Filter

def instructionSize : Nat := 8

def instructions (bytes : Nat) : Except SetupFault UInt16 :=
  if bytes = 0 then .error (.invalid "invalid seccomp_bpf_fd length: the program is empty")
  else if bytes % instructionSize ≠ 0 then
    .error (.invalid
      s!"invalid seccomp_bpf_fd length: {bytes} is not a multiple of {instructionSize}")
  else if bytes / instructionSize < UInt16.size then .ok (.ofNat (bytes / instructionSize))
  else .error (.invalid "seccomp_bpf_fd is too big")

def ofBytes (program : List UInt8) : Except SetupFault (List UInt8) := do
  let _ ← instructions program.length
  return program

def ofFile (f : OpenFile) : Except SetupFault (List UInt8) :=
  ofBytes f.contentAtStart

/-- Reads the filter in a file, with the file as it is left. -/
def read (f : OpenFile) (turns : List OpenFile.Turn)
    : Option (Except SetupFault (List UInt8)) × OpenFile :=
  let (result, f) := f.readWhole [] turns
  (result.map fun data => data.mapError (.ofIo "read(seccomp_bpf_fd)") >>= ofBytes, f)

structure Instruction where
  code : UInt16
  ifTrue : UInt8
  ifFalse : UInt8
  operand : UInt32
  deriving DecidableEq, Repr

-- The instructions that so many bytes each stand for; a rest that is too short stands for none.
def decode : List UInt8 → List Instruction
  | c₀ :: c₁ :: ifTrue :: ifFalse :: k₀ :: k₁ :: k₂ :: k₃ :: rest =>
    ⟨.ofNat (Frame.ofLittleEndian [c₀, c₁]), ifTrue, ifFalse,
      .ofNat (Frame.ofLittleEndian [k₀, k₁, k₂, k₃])⟩ :: decode rest
  | _ => []

structure Installed where
  count : UInt16
  instructions : List Instruction
  deriving DecidableEq, Repr

/-- Installs a filter. Its length is cut to the 16 bits that the kernel takes. -/
def install (program : List UInt8) : Installed where
  count := .ofNat (program.length / instructionSize)
  instructions := decode program

end Filter

end Enclosure
