import Enclosure.Proofs.Reader
import Enclosure.Text.Bytes

/-!
This module contains the cutting of texts. The bytes of a text may be cut exactly where two texts
meet, so going back from a limit to the next such place finds the longest front within the limit.
-/

namespace Enclosure.Text

open Reader (length_toUTF8)

/-- The longest front of a text that takes at most so many bytes. A front ends between two
characters. -/
structure IsLongestFront (capacity : Nat) (text front : String) : Prop where
  isFront : ∃ back, text = front ++ back
  fits : front.utf8ByteSize ≤ capacity
  longest : ∀ other back, text = other ++ back → other.utf8ByteSize ≤ capacity →
    other.utf8ByteSize ≤ front.utf8ByteSize

section Bytes

theorem utf8ByteSize_replicate (n : Nat) (c : Char)
    : (String.ofList (.replicate n c)).utf8ByteSize = n * c.utf8Size := by
  induction n with
  | zero => rw [Nat.zero_mul]; rfl
  | succ n ih =>
    rw [List.replicate_succ, String.ofList_cons, String.utf8ByteSize_append,
      String.utf8ByteSize_singleton, ih, Nat.succ_mul, Nat.add_comm]

theorem toUTF8_append (s t : String)
    : (s ++ t).toUTF8.data.toList = s.toUTF8.data.toList ++ t.toUTF8.data.toList := by
  unfold String.toUTF8
  rw [String.toByteArray_append, ByteArray.data_append, Array.toList_append]

theorem toUTF8_eq_flatMap (s : String)
    : s.toUTF8.data.toList = s.toList.flatMap String.utf8EncodeChar := by
  have := congrArg ByteArray.data s.utf8Encode_toList
  unfold String.toUTF8
  rw [← this]
  unfold List.utf8Encode
  rw [List.data_toByteArray]

theorem take_toUTF8_append (s t : String)
    : (s ++ t).toUTF8.data.toList.take s.utf8ByteSize = s.toUTF8.data.toList := by
  rw [toUTF8_append, List.take_left' (length_toUTF8 s)]

theorem lt_of_mem_utf8EncodeChar {c : Char} {b : UInt8} (h : b ∈ String.utf8EncodeChar c)
    : b.toNat < 0xF8 := by
  unfold String.utf8EncodeChar at h
  dsimp only at h
  split at h
  . rw [List.mem_singleton] at h
    rw [h, UInt8.toNat_ofNat']
    omega
  . split at h
    . simp only [List.mem_cons, List.not_mem_nil, or_false] at h
      obtain rfl | rfl := h
      all_goals
        rw [UInt8.toNat_ofNat']
        omega
    . split at h
      . simp only [List.mem_cons, List.not_mem_nil, or_false] at h
        obtain rfl | rfl | rfl := h
        all_goals
          rw [UInt8.toNat_ofNat']
          omega
      . simp only [List.mem_cons, List.not_mem_nil, or_false] at h
        obtain rfl | rfl | rfl | rfl := h
        all_goals
          rw [UInt8.toNat_ofNat']
          omega

theorem isContinuation_iff {b : UInt8} (h : b.toNat < 0xF8)
    : isContinuation b = true ↔ ¬ b.IsUTF8FirstByte := by
  have hall : ∀ n : Fin 0xF8,
      isContinuation (.ofNat n) = true ↔ ¬ (UInt8.ofNat n).IsUTF8FirstByte := by
    decide +kernel
  have := hall ⟨b.toNat, h⟩
  rw [UInt8.ofNat_toNat] at this
  exact this

theorem isContinuation_iff_of_mem {s : String} {b : UInt8} (h : b ∈ s.toUTF8.data.toList)
    : isContinuation b = true ↔ ¬ b.IsUTF8FirstByte := by
  rw [toUTF8_eq_flatMap, List.mem_flatMap] at h
  obtain ⟨c, _, hb⟩ := h
  exact isContinuation_iff (lt_of_mem_utf8EncodeChar hb)

end Bytes

section Boundary

theorem isBoundary_iff (s : String) (n : Nat)
    : isBoundary s.toUTF8.data.toList n = true
        ↔
      ∃ front back, s = front ++ back ∧ front.utf8ByteSize = n := by
  have hvalid : (∃ front back, s = front ++ back ∧ front.utf8ByteSize = n)
      ↔ (⟨n⟩ : String.Pos.Raw).IsValid s := by
    rw [String.Pos.Raw.isValid_iff_exists_append]
    simp only [String.Pos.Raw.ext_iff, String.byteIdx_rawEndPos, eq_comm]
  have hend : (⟨n⟩ : String.Pos.Raw) = s.rawEndPos ↔ n = s.toUTF8.data.toList.length := by
    rw [String.Pos.Raw.ext_iff, String.byteIdx_rawEndPos, length_toUTF8]
  have hbefore : (⟨n⟩ : String.Pos.Raw) < s.rawEndPos ↔ n < s.toUTF8.data.toList.length := by
    rw [String.Pos.Raw.lt_iff, String.byteIdx_rawEndPos, length_toUTF8]
  rw [hvalid]
  by_cases hzero : n = 0
  . subst hzero
    exact iff_of_true rfl String.Pos.Raw.isValid_zero
  rw [String.Pos.Raw.isValid_iff_isUTF8FirstByte, hend]
  unfold isBoundary
  rw [decide_eq_false hzero, Bool.false_or]
  by_cases hlt : n < s.toUTF8.data.toList.length
  . have hget : s.getUTF8Byte ⟨n⟩ (hbefore.mpr hlt) = s.toUTF8.data.toList[n] := rfl
    have hbyte := isContinuation_iff_of_mem (List.getElem_mem hlt)
    rw [List.getElem?_eq_getElem hlt, or_iff_right (Nat.ne_of_lt hlt),
      exists_prop_of_true (hbefore.mpr hlt), hget]
    dsimp only
    rw [Bool.not_eq_true', ← Bool.not_eq_true, hbyte, Classical.not_not]
  . rw [List.getElem?_eq_none (Nat.le_of_not_lt hlt)]
    dsimp only
    rw [decide_eq_true_iff, or_iff_left]
    rintro ⟨h, -⟩
    exact hlt (hbefore.mp h)

theorem boundaryFrom_le (bytes : List UInt8) (n : Nat) : boundaryFrom bytes n ≤ n := by
  induction n with
  | zero => exact Nat.le_refl 0
  | succ n ih =>
    unfold boundaryFrom
    split
    . exact Nat.le_refl _
    . exact Nat.le_succ_of_le ih

theorem isBoundary_boundaryFrom (bytes : List UInt8) (n : Nat)
    : isBoundary bytes (boundaryFrom bytes n) = true := by
  induction n with
  | zero => rfl
  | succ n ih =>
    unfold boundaryFrom
    split
    . next h => exact h
    . exact ih

theorem le_boundaryFrom {bytes : List UInt8} {m n : Nat} (hm : isBoundary bytes m = true)
    (h : m ≤ n)
    : m ≤ boundaryFrom bytes n := by
  induction n with
  | zero => exact h
  | succ n ih =>
    unfold boundaryFrom
    split
    . exact h
    . next hn =>
      apply ih
      cases Nat.le_or_eq_of_le_succ h with
      | inl h => exact h
      | inr h =>
        rw [h] at hm
        contradiction

end Boundary

section LongestFront

variable {capacity : Nat} {text front : String}

theorem IsLongestFront.boundaryFrom_eq (h : IsLongestFront capacity text front)
    : boundaryFrom text.toUTF8.data.toList (min text.toUTF8.data.toList.length capacity)
        =
      front.utf8ByteSize := by
  generalize hn : min text.toUTF8.data.toList.length capacity = n
  obtain ⟨other, rest, hother, hsize⟩ :=
    (isBoundary_iff text _).mp (isBoundary_boundaryFrom text.toUTF8.data.toList n)
  have hle := boundaryFrom_le text.toUTF8.data.toList n
  apply Nat.le_antisymm
  . rw [← hsize]
    exact h.longest other rest hother (by omega)
  . obtain ⟨back, hback⟩ := h.isFront
    apply le_boundaryFrom ((isBoundary_iff text _).mpr ⟨front, back, hback, rfl⟩)
    have hfits := h.fits
    rw [← hn, length_toUTF8, hback, String.utf8ByteSize_append]
    omega

theorem IsLongestFront.take_eq (h : IsLongestFront capacity text front)
    : text.toUTF8.data.toList.take
        (boundaryFrom text.toUTF8.data.toList (min text.toUTF8.data.toList.length capacity))
        =
      front.toUTF8.data.toList := by
  rw [h.boundaryFrom_eq]
  obtain ⟨back, rfl⟩ := h.isFront
  rw [take_toUTF8_append]

theorem IsLongestFront.eq_of_fits (h : IsLongestFront capacity text front)
    (hfits : text.utf8ByteSize ≤ capacity)
    : front = text := by
  obtain ⟨back, rfl⟩ := h.isFront
  have hle := h.longest _ "" String.append_empty.symm hfits
  rw [String.utf8ByteSize_append] at hle
  have hback : back = "" := String.utf8ByteSize_eq_zero_iff.mp (by omega)
  rw [hback, String.append_empty]

-- No character takes more than four bytes, so no more than three of them are left over.
theorem IsLongestFront.capacity_le (h : IsLongestFront capacity text front)
    (hlong : capacity < text.utf8ByteSize)
    : capacity ≤ front.utf8ByteSize + 3 := by
  obtain ⟨back, rfl⟩ := h.isFront
  obtain ⟨cs, rfl⟩ := back.exists_eq_ofList
  cases cs with
  | nil =>
    rw [String.ofList_nil, String.append_empty] at hlong
    exact absurd h.fits (Nat.not_le.mpr hlong)
  | cons c cs =>
    have hsize : (front ++ String.singleton c).utf8ByteSize = front.utf8ByteSize + c.utf8Size := by
      rw [String.utf8ByteSize_append, String.utf8ByteSize_singleton]
    have hnext : front ++ String.ofList (c :: cs) = front ++ String.singleton c ++ .ofList cs := by
      rw [String.ofList_cons, String.append_assoc]
    have := h.longest _ _ hnext
    have := c.utf8Size_pos
    have := c.utf8Size_le_four
    omega

end LongestFront

end Enclosure.Text
