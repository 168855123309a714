import Enclosure.Proofs.Transfer

/-!
This module contains the moving of one frame: whatever pieces its bytes are accepted and given in, a
sent frame is on the channel once, with its descriptors at the first byte, and nothing behind a
frame is read with it.
-/

namespace Enclosure

namespace Channel

theorem send_of_ne_nil (c : Channel F) {bytes : List UInt8} {descriptors : List F}
    (hne : bytes ≠ []) (h : descriptors.length ≤ maxDescriptors)
    : c.send bytes descriptors
        = (.ok bytes.length, { c with segments := c.segments ++ [⟨bytes, descriptors⟩] }) := by
  unfold send
  rw [if_neg (Nat.not_lt.mpr h), if_neg hne]

end Channel

namespace Frame

open Channel

theorem sendOn_eq (c : Channel F) (frame : List UInt8) {descriptors : List F}
    (h : descriptors.length ≤ maxDescriptors) (turns : List SendTurn)
    : sendOn c frame descriptors turns
        = ((sendPieces frame descriptors turns).1,
            { c with segments := c.segments ++ (sendPieces frame descriptors turns).2 }) := by
  induction turns generalizing c frame descriptors with
  | nil =>
    unfold sendOn sendPieces
    split
    . simp
    . next hne =>
      rw [send_of_ne_nil c (by simpa using hne) h]
      rfl
  | cons turn turns ih =>
    unfold sendOn sendPieces
    split
    . simp
    . next hne =>
      rw [if_neg (Nat.not_lt.mpr h)]
      cases turn with
      | interrupted => exact ih c frame h
      | failed fault => simp
      | accepted n =>
        have hpiece : frame.take (max 1 n) ≠ [] := by simpa using hne
        have hrest : frame.drop (frame.take (max 1 n)).length = frame.drop (max 1 n) := by
          rw [List.length_take, List.drop_eq_drop_iff]
          omega
        dsimp only
        rw [send_of_ne_nil c hpiece h]
        dsimp only
        rw [hrest, ih _ _ (Nat.zero_le _)]
        simp

theorem sendPieces_ok (frame : List UInt8) (descriptors : List F) {turns : List SendTurn}
    (hfine : ∀ fault, .failed fault ∉ turns)
    : (sendPieces frame descriptors turns).1 = .ok () := by
  induction turns generalizing frame descriptors with
  | nil => rfl
  | cons turn turns ih =>
    have hfine' : ∀ fault, .failed fault ∉ turns :=
      fun fault hmem => hfine fault (List.mem_cons_of_mem _ hmem)
    unfold sendPieces
    split
    . rfl
    . cases turn with
      | interrupted => exact ih frame descriptors hfine'
      | failed fault => exact absurd List.mem_cons_self (hfine fault)
      | accepted n => exact ih _ _ hfine'

theorem sendOn_ok (c : Channel F) (frame : List UInt8) {descriptors : List F}
    (h : descriptors.length ≤ maxDescriptors) {turns : List SendTurn}
    (hfine : ∀ fault, .failed fault ∉ turns)
    : (sendOn c frame descriptors turns).1 = .ok () := by
  rw [sendOn_eq c frame h]
  apply sendPieces_ok frame descriptors hfine

theorem flow_of_sendOn {c c' : Channel F} {frame : List UInt8} {descriptors : List F}
    {turns : List SendTurn} (h : descriptors.length ≤ maxDescriptors)
    (hok : sendOn c frame descriptors turns = (.ok (), c'))
    : c'.closed = c.closed
        ∧ Flow.ofSegments c'.segments
          = Flow.ofSegments c.segments ++ Flow.ofSegment ⟨frame, descriptors⟩ := by
  rw [sendOn_eq c frame h, Prod.mk.injEq] at hok
  obtain ⟨hresult, rfl⟩ := hok
  rw [← flow_sendPieces hresult]
  exact ⟨rfl, List.flatMap_append⟩

theorem length?_littleEndian {n : Nat} (hlt : n < UInt32.size) (hlarge : maxBody < n)
    (rest : List UInt8)
    : length? (littleEndian lengthSize n ++ rest) = .error (.tooLarge n) := by
  have hread : ofLittleEndian (littleEndian lengthSize n) = n := ofLittleEndian_littleEndian _ _ hlt
  unfold length?
  rw [List.take_left' (length_littleEndian ..)]
  simp [hread, hlarge]

theorem IsWhole.length?_of_front {f stream : List UInt8} (h : IsWhole f) (hfront : stream <+: f)
    (hlong : lengthSize ≤ stream.length)
    : length? stream = .ok (some f.length) := by
  obtain ⟨rest, rfl⟩ := hfront
  rwa [IsWhole, Frame.length?_append _ _ hlong] at h

end Frame

namespace Verdict

open Frame

variable {stream frame : List UInt8} {v : Verdict} (lengthTurns bodyTurns : List Nat)

theorem readFrom_of_encode (h : v.encode = .ok frame) (rest : List UInt8)
    : readFrom (frame ++ rest) lengthTurns bodyTurns = (.ok v.onWire, rest) := by
  obtain ⟨hframe, hsize, hdecode⟩ := decode_of_encode h
  refine readFrom_eq_ok_iff.mpr ⟨frame.length, ?_, ?_, ?_, ?_⟩
  . rw [hframe]
    apply length?_ofBody v.body rest hsize
  . rw [List.length_append]
    omega
  . rw [List.take_left, hframe, drop_ofBody, hdecode]
  . rw [List.drop_left]

theorem readFrom_of_tooLarge {n : Nat} (hlt : n < UInt32.size) (hlarge : maxBody < n)
    (rest : List UInt8)
    : readFrom (littleEndian lengthSize n ++ rest) lengthTurns bodyTurns
        = (.error (.frame (.tooLarge n)), rest) := by
  have hlong : ¬ (littleEndian lengthSize n ++ rest).length < lengthSize := by simp
  unfold readFrom
  rw [readExactly_eq, if_neg hlong]
  dsimp only
  rw [length?_take _ _ (Nat.le_refl _), length?_littleEndian hlt hlarge]
  dsimp only
  rw [List.drop_left' (length_littleEndian ..)]

theorem readFrom_of_front (h : IsWhole frame) (hfront : stream <+: frame) (hne : stream ≠ frame)
    : readFrom stream lengthTurns bodyTurns = (.error (.io .unexpectedEnd), []) := by
  have hlt : stream.length < frame.length :=
    Nat.lt_of_le_of_ne hfront.length_le fun heq => hne (hfront.eq_of_length heq)
  unfold readFrom
  rw [readExactly_eq]
  by_cases hshort : stream.length < lengthSize
  . rw [if_pos hshort]
  . have hlong := Nat.le_of_not_lt hshort
    rw [if_neg hshort]
    dsimp only
    rw [length?_take _ _ (Nat.le_refl _), h.length?_of_front hfront hlong]
    dsimp only
    rw [readExactly_eq, List.length_drop, Option.getD_some, if_pos (by omega)]

end Verdict

namespace Frame

/-- A frame that is sent is on the channel once behind what has been there, all of its descriptors
at its first byte, whatever sends are interrupted and however little each of them accepts. From a
stream exactly one frame is read. A length that is too large is read without what follows it, and
nothing is read from a stream that ends inside a frame. -/
theorem moved_once
    : (∀ (c : Channel F) (frame : List UInt8) (descriptors : List F) (turns : List SendTurn),
        descriptors.length ≤ Channel.maxDescriptors →
          ((∀ fault, .failed fault ∉ turns) → (sendOn c frame descriptors turns).1 = .ok ())
            ∧ ∀ c', sendOn c frame descriptors turns = (.ok (), c') →
                c'.closed = c.closed
                  ∧ Flow.ofSegments c'.segments
                      = Flow.ofSegments c.segments ++ Flow.ofSegment ⟨frame, descriptors⟩)
        ∧ (∀ (v : Verdict) (frame : List UInt8), v.encode = .ok frame →
            ∀ (rest : List UInt8) (lengthTurns bodyTurns : List Nat),
              Verdict.decode (frame.drop lengthSize) = .ok v.onWire
                ∧ Verdict.readFrom (frame ++ rest) lengthTurns bodyTurns = (.ok v.onWire, rest))
        ∧ (∀ n, n < UInt32.size → maxBody < n →
            ∀ (rest : List UInt8) (lengthTurns bodyTurns : List Nat),
              Verdict.readFrom (littleEndian lengthSize n ++ rest) lengthTurns bodyTurns
                = (.error (.frame (.tooLarge n)), rest))
        ∧ ∀ frame stream, IsWhole frame → stream <+: frame → stream ≠ frame →
            ∀ lengthTurns bodyTurns : List Nat,
              Verdict.readFrom stream lengthTurns bodyTurns
                = (.error (.io .unexpectedEnd), []) := by
  refine ⟨?_, ?_, ?_, ?_⟩
  . intro c frame descriptors turns h
    exact ⟨sendOn_ok c frame h, fun c' => flow_of_sendOn h⟩
  . intro v frame hencode rest lengthTurns bodyTurns
    obtain ⟨hframe, _, hdecode⟩ := Verdict.decode_of_encode hencode
    refine ⟨?_, Verdict.readFrom_of_encode lengthTurns bodyTurns hencode rest⟩
    rw [hframe, drop_ofBody, hdecode]
  . intro n hlt hlarge rest lengthTurns bodyTurns
    apply Verdict.readFrom_of_tooLarge lengthTurns bodyTurns hlt hlarge
  . intro frame stream hwhole hfront hne lengthTurns bodyTurns
    apply Verdict.readFrom_of_front lengthTurns bodyTurns hwhole hfront hne

-- The first send is interrupted, and the next ones accept few bytes.
def haltingTurns : List SendTurn := [.interrupted, .accepted 3, .interrupted, .accepted 0]

theorem moved_once_of_haltingTurns
    : sendOn {} [4, 0, 0, 0, 1, 2, 3, 4] [5, 6] haltingTurns
          = (.ok (), { segments := [⟨[4, 0, 0], [5, 6]⟩, ⟨[0], []⟩, ⟨[1, 2, 3, 4], []⟩] })
        ∧ Flow.ofSegments [⟨[4, 0, 0], [5, 6]⟩, ⟨[0], []⟩, ⟨[1, 2, 3, 4], []⟩]
            = (4, [5, 6]) :: Flow.plain [0, 0, 0, 1, 2, 3, 4]
        ∧ Verdict.readFrom (ofBody (Verdict.failed "no").body ++ [9]) [1, 2] [3]
            = (.ok (.failed "no"), [9])
        ∧ Verdict.readFrom (littleEndian lengthSize (maxBody + 1) ++ [9]) [1, 2] [3]
            = (.error (.frame (.tooLarge (maxBody + 1))), [9])
        ∧ Verdict.readFrom [4, 0, 0, 0, 1, 2, 3] [1, 2] [3]
            = (.error (.io .unexpectedEnd), []) := by
  have hsent : sendOn {} [4, 0, 0, 0, 1, 2, 3, 4] [5, 6] haltingTurns
      = (.ok (), { segments := [⟨[4, 0, 0], [5, 6]⟩, ⟨[0], []⟩, ⟨[1, 2, 3, 4], []⟩] }) := rfl
  obtain ⟨hsend, hread, hlarge, hshort⟩ := moved_once (F := Nat)
  refine ⟨hsent, ?_, ?_, ?_, ?_⟩
  . exact ((hsend {} _ [5, 6] haltingTurns (by decide)).2 _ hsent).2
  . exact (hread _ _ (Verdict.encode_failed "no" (by decide)) [9] [1, 2] [3]).2
  . exact hlarge _ (by decide) (by decide) [9] [1, 2] [3]
  . exact hshort [4, 0, 0, 0, 1, 2, 3, 4] _ rfl ⟨[4], rfl⟩ (by decide) [1, 2] [3]

end Frame

end Enclosure
