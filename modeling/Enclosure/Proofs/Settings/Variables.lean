import Enclosure.Proofs.Binary64.Word
import Enclosure.Settings.Variables

/-!
This module contains what becomes of numbers and texts that are handed on as variables. The value of
a variable is read as a truth value or a number if it can be, and only then turned back.
-/

namespace Enclosure

theorem mem_dropWhile {p : α → Bool} {as : List α} (h : a ∈ as) (hp : ¬ p a)
    : a ∈ as.dropWhile p := by
  rw [← List.takeWhile_append_dropWhile (p := p) (l := as), List.mem_append] at h
  apply h.resolve_left
  intro htake
  exact hp (List.all_eq_true.mp List.all_takeWhile a htake)

namespace Binary64

theorem exponent?_eq_none {s : List Char} (h : '/' ∈ s) : exponent? s = none := by
  unfold exponent?
  split
  . next cs =>
    rw [Text.natural?_eq_none (by simpa using h) (by decide)]
    rfl
  . next cs =>
    rw [Text.natural?_eq_none (by simpa using h) (by decide)]
    rfl
  . rw [Text.natural?_eq_none h (by decide)]
    rfl

theorem slash_mem_rest {s rest : List Char} (h : '/' ∈ s)
    (hrest : (match s.dropWhile Char.isDigit with
      | '.' :: cs => (cs.takeWhile Char.isDigit, cs.dropWhile Char.isDigit)
      | cs => ([], cs)).2 = rest)
    : '/' ∈ rest := by
  have hmem := mem_dropWhile (p := Char.isDigit) h (by decide)
  rw [← hrest]
  split
  . next cs heq =>
    apply mem_dropWhile _ (by decide)
    simpa [heq] using hmem
  . exact hmem

theorem decimal?_eq_none (negative : Bool) {s : List Char} (h : '/' ∈ s)
    : decimal? negative s = none := by
  unfold decimal?
  apply Option.bind_eq_none_iff.mpr
  intro digits _
  dsimp only
  split
  . next heq => exact absurd (slash_mem_rest h heq) List.not_mem_nil
  . next c cs heq =>
    split
    . next hc =>
      have hcs : '/' ∈ cs := by
        apply List.mem_of_ne_of_mem _ (slash_mem_rest h heq)
        rintro rfl
        simp at hc
      rw [exponent?_eq_none hcs]
      rfl
    . rfl

theorem parse?_eq_none {s : List Char} (h : '/' ∈ s) : parse? s = none := by
  have hunsigned (negative : Bool) {s : List Char} (h : '/' ∈ s) : unsigned? negative s = none := by
    have hwords : ∀ word ∈ wordsForNumbers, '/' ∉ word := by decide
    rw [unsigned?_eq_decimal?, decimal?_eq_none negative h]
    intro word hword
    apply Text.map_toLower_ne h (by decide) (hwords word hword)
  unfold parse?
  split
  . apply hunsigned true
    simpa using h
  . apply hunsigned false
    simpa using h
  . apply hunsigned false h

end Binary64

namespace Settings

theorem ofVariable_of_slash {value : String} (h : '/' ∈ value.toList)
    : ofVariable value = .text value := by
  have hword {word : List Char} (hword : '/' ∉ word) : value.toList.map Char.toLower ≠ word := by
    apply Text.map_toLower_ne h (by decide) hword
  unfold ofVariable
  dsimp only
  rw [if_neg (hword (by decide)), if_neg (hword (by decide)),
    Text.signed?_eq_none h (by decide) (by decide) (by decide), Binary64.parse?_eq_none h]

def restoredWord (n : UInt64) : UInt64 :=
  if n.toNat < 9223372036854775808 then n
  else .ofNat (min (UInt64.size - 1) (2048 * roundHalfEven n.toNat 2048))

theorem toWord_ofVariable (n : UInt64)
    : (ofVariable (toString n)).toWord = .ok (restoredWord n) := by
  have hword {word : List Char} (hword : word.any Char.isDigit = false)
      : (Nat.toDigits 10 n.toNat).map Char.toLower ≠ word := by
    apply Text.map_toLower_toDigits_ne n.toNat hword
  have hbound : 1 <<< (64 - 1) = 9223372036854775808 := by decide
  unfold ofVariable restoredWord
  dsimp only
  rw [Text.toList_toString_word, if_neg (hword (by decide)), if_neg (hword (by decide)),
    Text.signed?_toDigits, hbound]
  by_cases hsmall : n.toNat < 9223372036854775808
  . rw [if_pos hsmall, if_pos hsmall]
    simp [Setting.toWord]
  . have hlow := Nat.le_of_not_lt hsmall
    rw [if_neg hsmall, if_neg hsmall, Binary64.parse?_toDigits,
      Binary64.ofDecimal_whole (by omega)]
    dsimp only [Setting.toWord]
    rw [Binary64.toWord_ofRatio_one hlow n.toNat_lt_size]

def IsExact (n : UInt64) : Prop :=
  n.toNat < 9223372036854775808 ∨ 2048 ∣ n.toNat ∨ n.toNat = UInt64.size - 1

theorem restoredWord_eq_iff (n : UInt64) : restoredWord n = n ↔ IsExact n := by
  have hsize := n.toNat_lt_size
  have hround := roundHalfEven_cases n.toNat 2048
  unfold restoredWord IsExact
  split
  . next hsmall => simp [hsmall]
  . next hlarge =>
    rw [← UInt64.toNat_inj, UInt64.toNat_ofNat_of_lt']
    . unfold UInt64.size at *
      omega
    . unfold UInt64.size at *
      omega

theorem restoredWord_ne_zero {n : UInt64} (h : n ≠ 0) : restoredWord n ≠ 0 := by
  have hround := roundHalfEven_cases n.toNat 2048
  unfold restoredWord
  split
  . exact h
  . intro hzero
    have hzero := congrArg UInt64.toNat hzero
    rw [UInt64.toNat_ofNat_of_lt' (by unfold UInt64.size; omega)] at hzero
    simp at hzero
    omega

def restoredText (value : String) : String :=
  match ofVariable value with
  | .boolean b => toString b
  | .integer n => toString n
  | .real x => Binary64.plain.write x
  | _ => value

theorem toText_ofVariable (value : String)
    : (ofVariable value).toText = .ok (restoredText value) := by
  unfold restoredText ofVariable
  dsimp only
  split
  . rfl
  . split
    . rfl
    . split
      . rfl
      . split
        . rfl
        . rfl

theorem restoredText_of_slash {value : String} (h : '/' ∈ value.toList)
    : restoredText value = value := by
  unfold restoredText
  rw [ofVariable_of_slash h]

end Settings

end Enclosure
