import Enclosure.Proofs.Frame
import Enclosure.Supervisor.Server

/-!
This module contains the complete frames at the front of a buffer, which are counted to find out
whether reading pauses.
-/

namespace Enclosure.Supervisor

open Frame (IsWhole NoneWhole)

structure Cut (buf : List UInt8) (fs : List (List UInt8)) (rest : List UInt8) : Prop where
  eq : buf = fs.flatten ++ rest
  whole : ∀ f ∈ fs, IsWhole f
  last : NoneWhole rest

theorem queuedFrames_eq_zero {buf : List UInt8} (h : NoneWhole buf) : queuedFrames buf = 0 := by
  unfold queuedFrames
  split
  . next size hlength =>
    have := h size hlength
    rw [dif_neg (by omega)]
  . rfl

theorem queuedFrames_append {f : List UInt8} (h : IsWhole f) (rest : List UInt8)
    : queuedFrames (f ++ rest) = queuedFrames rest + 1 := by
  rw [queuedFrames]
  simp only [h.length?_append]
  rw [dif_pos ⟨h.length_pos, by simp⟩, List.drop_left]

theorem queuedFrames_of_length? {buf : List UInt8} (hlength : Frame.length? buf = .ok (some size))
    (hsize : size ≤ buf.length)
    : queuedFrames buf = queuedFrames (buf.drop size) + 1 := by
  have := queuedFrames_append (Frame.isWhole_take hlength hsize) (buf.drop size)
  rw [List.take_append_drop] at this
  exact this

theorem queuedFrames_eq_zero_iff {buf : List UInt8} : queuedFrames buf = 0 ↔ NoneWhole buf := by
  constructor
  . intro hzero size hlength
    apply Nat.lt_of_not_le
    intro hsize
    rw [queuedFrames_of_length? hlength hsize] at hzero
    contradiction
  . exact queuedFrames_eq_zero

theorem queuedFrames_flatten_append {fs : List (List UInt8)} (h : ∀ f ∈ fs, IsWhole f)
    (rest : List UInt8)
    : queuedFrames (fs.flatten ++ rest) = fs.length + queuedFrames rest := by
  induction fs with
  | nil => simp
  | cons f fs ih =>
    rw [List.forall_mem_cons] at h
    rw [List.flatten_cons, List.append_assoc, queuedFrames_append h.1, ih h.2, List.length_cons]
    omega

namespace Cut

variable {buf rest : List UInt8} {fs : List (List UInt8)}

theorem queuedFrames (h : Cut buf fs rest) : queuedFrames buf = fs.length := by
  rw [h.eq, queuedFrames_flatten_append h.whole, queuedFrames_eq_zero h.last, Nat.add_zero]

theorem of_noneWhole (h : NoneWhole buf) : Cut buf [] buf where
  eq := rfl
  whole := by simp
  last := h

theorem cons {f : List UInt8} (hf : IsWhole f) (h : Cut buf fs rest)
    : Cut (f ++ buf) (f :: fs) rest where
  eq := by rw [h.eq, List.flatten_cons, List.append_assoc]
  whole := List.forall_mem_cons.mpr ⟨hf, h.whole⟩
  last := h.last

theorem length_le (h : Cut buf fs rest)
    : buf.length ≤ fs.length * (Frame.lengthSize + Frame.maxBody) + rest.length := by
  rw [h.eq, List.length_append]
  exact Nat.add_le_add_right (Frame.length_flatten_le h.whole) rest.length

end Cut

theorem exists_cut (buf : List UInt8) : ∃ fs rest, Cut buf fs rest := by
  -- The counting goes on behind a complete frame and stops at everything else.
  induction buf using queuedFrames.induct with
  | case1 buf size hlength hsize ih =>
    obtain ⟨fs, rest, hcut⟩ := ih
    have := hcut.cons (Frame.isWhole_take hlength hsize.2)
    rw [List.take_append_drop] at this
    exact ⟨_, rest, this⟩
  | case2 buf size hlength hsize =>
    refine ⟨[], buf, .of_noneWhole fun size' hlength' => ?_⟩
    rw [hlength, Except.ok.injEq, Option.some.injEq] at hlength'
    have := Frame.lengthSize_le_of_length? hlength
    unfold Frame.lengthSize at this
    omega
  | case3 buf hlength =>
    exact ⟨[], buf, .of_noneWhole fun size hlength' => absurd hlength' (hlength size)⟩

end Enclosure.Supervisor
