import Enclosure.Proofs.Request.Strict

/-!
This module contains the way of descriptors through the reading of a request. A body takes as many
of them from the front of the queue as its mask has bits, whatever becomes of the body later, and a
request has each of them in the slot of its bit.
-/

namespace Enclosure

open Reader

namespace Slots

variable {bits : UInt8} {mask : Slots Bool}

theorem ofBits?_eq_none_iff : ofBits? bits = none ↔ bits &&& ~~~31 ≠ 0 := by
  -- There are few enough words of one byte to try them all.
  have hbits : ∀ k < 256, ofBits? (.ofNat k) = none ↔ UInt8.ofNat k &&& ~~~31 ≠ 0 := by
    decide +kernel
  have := hbits bits.toNat bits.toNat_lt
  rw [UInt8.ofNat_toNat] at this
  exact this

theorem count_eq_cpop (mask : Slots Bool) : mask.count = mask.bits.toBitVec.cpop.toNat := by
  rcases mask with ⟨b0, b1, b2, b3, b4⟩
  revert b0 b1 b2 b3 b4
  decide

theorem count_of_ofBits? (h : ofBits? bits = some mask)
    : mask.count = bits.toBitVec.cpop.toNat := by
  rw [count_eq_cpop, bits_of_ofBits? h]

theorem toList_of_ofBits? (h : ofBits? bits = some mask)
    : mask.toList = (List.range 5).map bits.toNat.testBit := by
  unfold ofBits? at h
  split at h
  . cases h
    rfl
  . contradiction

theorem present_fill_take {values : List α} (h : ofBits? bits = some mask)
    (hcount : mask.count ≤ values.length)
    : (mask.fill (values.take mask.count)).present = values.take mask.count
        ∧
      (mask.fill (values.take mask.count)).toList.map Option.isSome
        =
      (List.range 5).map bits.toNat.testBit := by
  obtain ⟨hpresent, hmask⟩ := fill_eq mask _ (List.length_take_of_le hcount)
  have hfilled := congrArg toList hmask
  rw [toList_of_ofBits? h] at hfilled
  exact ⟨hpresent, hfilled⟩

end Slots

namespace Request

variable {bits : UInt8} {mask : Slots Bool}

theorem decode_cons (bits : UInt8) (body : List UInt8) (descriptors : List F)
    : decode (bits :: body) descriptors
        =
      match Slots.ofBits? bits with
      | none => (.error (.invalidMask bits), descriptors)
      | some mask =>
        if mask.count > descriptors.length then
          (.error (.missingDescriptors mask.count descriptors.length), descriptors)
        else
          (((readBody (mask.fill (descriptors.take mask.count))).on body).1,
            descriptors.drop mask.count) := by
  have hbits : u8.on (bits :: body) = (.ok bits, body) := reads_u8 bits body
  unfold decode
  rewrite [hbits]
  rfl

/-- A body that is empty, has a mask with other bits than those of the slots or claims more
descriptors than there are leaves the queue alone. Any other takes exactly as many descriptors from
the front of the queue as its mask has bits, even if it turns out to be malformed later, and a
request that is read has exactly these in the slots of the bits, in order. -/
theorem decode_descriptors (body : List UInt8) (descriptors : List F)
    : (body = [] → decode body descriptors = (.error .truncated, descriptors))
        ∧
      ∀ bits rest, body = bits :: rest →
        let claimed := bits.toBitVec.cpop.toNat
        if bits &&& ~~~31 ≠ 0 then
          decode body descriptors = (.error (.invalidMask bits), descriptors)
        else if descriptors.length < claimed then
          decode body descriptors
            = (.error (.missingDescriptors claimed descriptors.length), descriptors)
        else
          (decode body descriptors).2 = descriptors.drop claimed
            ∧ ∀ r, (decode body descriptors).1 = .ok r →
                r.descriptors.present = descriptors.take claimed
                  ∧ r.descriptors.toList.map Option.isSome
                      = (List.range 5).map bits.toNat.testBit := by
  constructor
  . rintro rfl
    rfl
  . rintro bits rest rfl
    dsimp only
    rw [decode_cons]
    cases hmask : Slots.ofBits? bits with
    | none => rw [if_pos (Slots.ofBits?_eq_none_iff.mp hmask)]
    | some mask =>
      have hvalid : ¬ (bits &&& ~~~31 ≠ 0) := by
        rw [← Slots.ofBits?_eq_none_iff, hmask]
        simp
      rw [if_neg hvalid, ← Slots.count_of_ofBits? hmask]
      dsimp only
      by_cases hcount : descriptors.length < mask.count
      . rw [if_pos hcount, if_pos hcount]
      . rw [if_neg hcount, if_neg hcount]
        refine ⟨rfl, fun r hr => ?_⟩
        have hslots := returns_readBody _ rest r _ (Prod.ext hr rfl)
        rw [hslots]
        exact Slots.present_fill_take hmask (Nat.le_of_not_lt hcount)

-- Standard output and a filter come with it, for a program without arguments.
def bodyWithFilter : List UInt8 :=
  [18, 1, 0, 0, 0, 1, 0, 0, 0, 97, 0, 0, 0, 0, 0, 0, 0, 0, 0, 0, 0, 0, 0, 0, 0, 0, 0, 0, 0, 0, 0, 0]

theorem decode_descriptors_of_bodyWithFilter
    : (decode (bodyWithFilter.take 31) [5, 6, 7]).2 = [7]
        ∧ ∃ r : Request Nat,
            decode bodyWithFilter [5, 6, 7] = (.ok r, [7])
              ∧ r.descriptors.present = [5, 6]
              ∧ r.descriptors.toList.map Option.isSome = [false, true, false, false, true] := by
  have hcut := (decode_descriptors (bodyWithFilter.take 31) [5, 6, 7]).2 18 _ rfl
  have hwhole := (decode_descriptors bodyWithFilter [5, 6, 7]).2 18 _ rfl
  dsimp only at hcut hwhole
  rw [if_neg (by decide), if_neg (by decide)] at hcut hwhole
  exact ⟨hcut.1, _, rfl, hwhole.2 _ rfl⟩

end Request

end Enclosure
