/-!
This module contains `Duration`, a span of time with nanosecond resolution whose whole seconds fit
64 bits, together with the few operations that limits and accounting need.
-/

namespace Enclosure

/-- A span of time, counted in nanoseconds. -/
structure Duration where
  ns : Nat
  ns_lt : ns < UInt64.size * 1000000000
  deriving DecidableEq, Repr

namespace Duration

instance : Inhabited Duration where
  default := ⟨0, by decide⟩

def zero : Duration := ⟨0, by decide⟩

def longest : Duration := ⟨UInt64.size * 1000000000 - 1, by decide⟩

-- Whole seconds and the nanoseconds of the last, unfinished one.
def ofParts (secs : UInt64) (nanos : Nat) (h : nanos < 1000000000) : Duration :=
  ⟨secs.toNat * 1000000000 + nanos, by have := secs.toNat_lt_size; omega⟩

def ofNanos (ns : Nat) : Duration :=
  if h : ns < UInt64.size * 1000000000 then ⟨ns, h⟩ else longest

def ofMicros (us : UInt64) : Duration :=
  ⟨us.toNat * 1000, by have := us.toNat_lt_size; omega⟩

def ofMillis (ms : UInt64) : Duration :=
  ⟨ms.toNat * 1000000, by have := ms.toNat_lt_size; omega⟩

def secs (d : Duration) : Nat :=
  d.ns / 1000000000

def subsecNanos (d : Duration) : Nat :=
  d.ns % 1000000000

def micros (d : Duration) : Nat :=
  d.ns / 1000

def add? (a b : Duration) : Option Duration :=
  if h : a.ns + b.ns < UInt64.size * 1000000000 then some ⟨a.ns + b.ns, h⟩ else none

protected def sub (a b : Duration) : Duration :=
  ⟨a.ns - b.ns, Nat.lt_of_le_of_lt (Nat.sub_le ..) a.ns_lt⟩

instance : Sub Duration := ⟨Duration.sub⟩

@[simp]
theorem ns_sub (a b : Duration) : (a - b).ns = a.ns - b.ns := rfl

@[simp]
theorem ns_ofMicros (us : UInt64) : (ofMicros us).ns = us.toNat * 1000 := rfl

theorem secs_lt (d : Duration) : d.secs < UInt64.size := by
  have := d.ns_lt
  unfold secs
  omega

theorem subsecNanos_lt (d : Duration) : d.subsecNanos < 1000000000 :=
  Nat.mod_lt _ (by decide)

end Duration

end Enclosure
