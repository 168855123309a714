import Enclosure.Frame.Transfer
import Enclosure.Proofs.Channel
import Enclosure.Proofs.Verdict.RoundTrip

/-!
This module contains the moving of whole frames: the pieces of a frame make up its flow, and reading
does not depend on the pieces that the bytes come in.
-/

namespace Enclosure

namespace Frame

theorem forall_sendPieces_ne_nil (frame : List UInt8) (descriptors : List F) (turns : List SendTurn)
    : ∀ piece ∈ (sendPieces frame descriptors turns).2, piece.bytes ≠ [] := by
  induction turns generalizing frame descriptors with
  | nil =>
    unfold sendPieces
    split
    . simp
    . next hne => simpa using hne
  | cons turn turns ih =>
    unfold sendPieces
    split
    . simp
    . next hne =>
      cases turn with
      | interrupted => exact ih frame descriptors
      | failed fault => simp
      | accepted n =>
        rw [List.forall_mem_cons]
        refine ⟨?_, ih _ _⟩
        simpa using hne

theorem flow_sendPieces {frame : List UInt8} {descriptors : List F} {turns : List SendTurn}
    (h : (sendPieces frame descriptors turns).1 = .ok ())
    : Flow.ofSegments (sendPieces frame descriptors turns).2
        =
      Flow.ofSegment ⟨frame, descriptors⟩ := by
  induction turns generalizing frame descriptors with
  | nil =>
    unfold sendPieces
    split
    . next hempty =>
      rw [List.isEmpty_iff.mp hempty]
      rfl
    . exact List.flatMap_singleton ..
  | cons turn turns ih =>
    unfold sendPieces at h ⊢
    split at h
    . next hempty =>
      rw [List.isEmpty_iff.mp hempty]
      rfl
    . next hne =>
      rw [if_neg hne]
      cases turn with
      | interrupted => exact ih h
      | failed fault => contradiction
      | accepted n =>
        have hpiece := Flow.ofSegment_split ⟨frame, descriptors⟩ (max 1 n) (by omega)
        rw [hpiece, ← Flow.ofSegment_of_no_descriptors, ← ih h]
        exact List.flatMap_cons

theorem readExactly_eq (n : Nat) (stream : List UInt8) (turns : List Nat)
    : readExactly n stream turns
        =
      if stream.length < n then (none, []) else (some (stream.take n), stream.drop n) := by
  induction turns generalizing n stream with
  | nil => rfl
  | cons turn turns ih =>
    unfold readExactly
    -- Only the length of the first piece matters, not the turn that it comes from.
    have hlength : (stream.take (min n (max 1 turn))).length ≤ n := by
      rw [List.length_take]
      omega
    have hle : (stream.take (min n (max 1 turn))).length ≤ stream.length := by
      rw [List.length_take]
      omega
    have htake : stream.take (min n (max 1 turn))
        = stream.take (stream.take (min n (max 1 turn))).length := by
      rw [List.length_take, List.take_eq_take_iff]
      omega
    generalize (stream.take (min n (max 1 turn))).length = k at *
    dsimp only
    rw [htake, List.length_take_of_le hle, ih, List.length_drop]
    by_cases hshort : stream.length < n
    . rw [if_pos hshort, if_pos (by omega)]
      rfl
    . rw [if_neg hshort, if_neg (by omega)]
      simp only [Option.map_some, List.drop_drop, Prod.mk.injEq, Option.some.injEq]
      constructor
      . rw [← List.take_add]
        congr 1
        omega
      . congr 1
        omega

end Frame

namespace Verdict

open Frame

theorem readFrom_eq_ok_iff {stream rest : List UInt8} {lengthTurns bodyTurns : List Nat}
    {v : Verdict}
    : readFrom stream lengthTurns bodyTurns = (.ok v, rest)
        ↔
      ∃ n,
        length? stream = .ok (some n)
          ∧ n ≤ stream.length
          ∧ decode ((stream.take n).drop lengthSize) = .ok v
          ∧ rest = stream.drop n := by
  unfold readFrom
  rw [readExactly_eq]
  by_cases hshort : stream.length < lengthSize
  . rw [if_pos hshort, length?_of_short hshort]
    simp
  rw [if_neg hshort]
  dsimp only
  rw [length?_take _ _ (Nat.le_refl _)]
  cases hlength : length? stream with
  | error e => simp
  | ok size =>
    cases size with
    | none => exact absurd hlength (length?_ne_none (Nat.le_of_not_lt hshort))
    | some n =>
      have hn := (lengthSize_le_of_length? hlength).1
      simp only [Option.getD_some, Except.ok.injEq, Option.some.injEq, exists_eq_left']
      rw [readExactly_eq, List.length_drop, ← List.drop_take, List.drop_drop,
        Nat.add_sub_cancel' hn]
      by_cases hle : n ≤ stream.length
      . rw [if_neg (by omega)]
        dsimp only
        cases decode ((stream.take n).drop lengthSize) with
        | error e =>
          change (Except.error _, _) = _ ↔ _
          simp
        | ok v' =>
          change (Except.ok v', _) = _ ↔ _
          simp [hle, eq_comm]
      . rw [if_pos (by omega)]
        simp [hle]

theorem readFrom_ok {stream rest : List UInt8} {us : List Verdict} {frames : List (List UInt8)}
    {lengthTurns bodyTurns : List Nat} {v : Verdict} (hframes : us.map encode = frames.map .ok)
    (hstream : stream <+: frames.flatten)
    (h : readFrom stream lengthTurns bodyTurns = (.ok v, rest))
    : ∃ u us' frame frames',
        us = u :: us'
          ∧ frames = frame :: frames'
          ∧ v = u.onWire
          ∧ stream = frame ++ rest
          ∧ frame ≠ [] := by
  obtain ⟨n, hlength, hle, hdecode, rfl⟩ := readFrom_eq_ok_iff.mp h
  have hlong := (lengthSize_le_of_length? hlength).2
  cases frames with
  | nil =>
    rw [List.flatten_nil, List.prefix_nil] at hstream
    rw [hstream] at hlong
    contradiction
  | cons frame frames =>
    cases us with
    | nil => contradiction
    | cons u us =>
      rw [List.map_cons, List.map_cons, List.cons.injEq] at hframes
      obtain ⟨hframe, hsize, hbody⟩ := decode_of_encode hframes.1
      rw [List.flatten_cons] at hstream
      have hn : n = frame.length := by
        obtain ⟨more, hmore⟩ := hstream
        have := length?_append stream more hlong
        rw [hmore, hlength, hframe, length?_ofBody u.body _ hsize] at this
        cases this
        rw [hframe]
      rw [hn] at hle hdecode ⊢
      obtain ⟨tail, rfl⟩ := List.prefix_of_prefix_length_le (List.prefix_append _ _) hstream hle
      rw [List.take_left, hframe, drop_ofBody, hbody] at hdecode
      cases hdecode
      refine ⟨u, us, frame, frames, rfl, rfl, rfl, ?_, ?_⟩
      . rw [List.drop_left]
      . rw [hframe]
        exact List.cons_ne_nil _ _

end Verdict

end Enclosure
