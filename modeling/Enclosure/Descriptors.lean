import Enclosure.Errno

/-!
This module contains the closing of all descriptors but some. The system closes a range of them at a
time, so what has to stay open is sorted, and the gaps that it leaves are closed.
-/

namespace Enclosure

/-- A state `σ` that answers the system call which closes a range of descriptors. Both ends belong
to the range. -/
class DescriptorTable (σ : Type) where
  closeRange (first last : UInt32) : StateM σ (Except Errno Unit)

namespace Descriptors

def last : UInt32 := 0xFFFFFFFF

def firstOther : UInt32 := 3

-- The gaps between ascending numbers, from `first` up to the last number of all. Both ends of a
-- gap belong to it.
def gaps (first : UInt32) : List UInt32 → List (UInt32 × UInt32)
  | [] => [(first, last)]
  | fd :: rest =>
    if fd < first then gaps first rest
    else if fd = first then gaps (fd + 1) rest
    else (first, fd - 1) :: gaps (fd + 1) rest

def sorted [LE α] [DecidableLE α] (keep : List α) : List α :=
  keep.mergeSort (· ≤ ·)

def closedRanges (keep : List Int32) : List (UInt32 × UInt32) :=
  gaps firstOther ((sorted keep).map Int32.toUInt32)

section

variable {σ : Type} [DescriptorTable σ]

def closeEach : List (UInt32 × UInt32) → StateM σ (Except Errno Unit)
  | [] => return .ok ()
  | (first, last) :: rest => do
    match ← DescriptorTable.closeRange first last with
    | .ok () => closeEach rest
    | .error e => return .error e

/-- Closes every descriptor but the standard ones and those to keep. -/
def closeOthers (keep : List Int32) : StateM σ (Except Errno Unit) :=
  closeEach (closedRanges keep)

end

-- Closes a range of the open descriptors. One that ends before it starts is refused.
def closeRange (first last : UInt32) (isOpen : List UInt32) : Except Errno Unit × List UInt32 :=
  if last < first then (.error .invalid, isOpen)
  else (.ok (), isOpen.filter fun fd => !(first ≤ fd && fd ≤ last))

instance : DescriptorTable (List UInt32) where
  closeRange := closeRange

def closeExcept (keep isOpen : List Nat) : List Nat :=
  let (_, left) := closeOthers (keep.map Int32.ofNat) (isOpen.map UInt32.ofNat)
  left.map UInt32.toNat

end Descriptors

end Enclosure
