import Enclosure.Proofs.Text.Number
import Enclosure.Binary64.Decimal

/-!
This module contains what becomes of words that are read as binary64 numbers and turned back into
words. From the 63rd power of two on, only every 2048th word is such a number.
-/

namespace Enclosure

theorem roundHalfEven_mul_right (n d : Nat) (hk : 0 < k)
    : roundHalfEven (n * k) (d * k) = roundHalfEven n d := by
  unfold roundHalfEven
  dsimp only
  rw [Nat.mul_div_mul_right _ _ hk, Nat.mul_mod_mul_right, ← Nat.mul_assoc]
  simp only [Nat.mul_lt_mul_right hk, Nat.mul_right_cancel_iff hk]

theorem roundHalfEven_cases (n d : Nat)
    : roundHalfEven n d = n / d ∧ 2 * (n % d) ≤ d
        ∨ roundHalfEven n d = n / d + 1 ∧ d ≤ 2 * (n % d) := by
  unfold roundHalfEven
  dsimp only
  split
  . next h =>
    simp only [Bool.or_eq_true, Bool.and_eq_true, decide_eq_true_eq] at h
    left
    exact ⟨rfl, by omega⟩
  . next h =>
    simp only [Bool.or_eq_true, Bool.and_eq_true, decide_eq_true_eq] at h
    right
    exact ⟨rfl, by omega⟩

theorem roundHalfUp_mul_right (n : Nat) (hd : 0 < d) : roundHalfUp (n * d) d = n := by
  have hsum : 2 * (n * d) + d = (2 * n + 1) * d := by
    rw [Nat.add_mul, Nat.mul_assoc, Nat.one_mul]
  unfold roundHalfUp
  rw [hsum, Nat.mul_div_mul_right _ _ hd]
  omega

theorem log2_mul_shiftLeft (hn : n ≠ 0) (k : Nat) : Nat.log2 (n * (1 <<< k)) = Nat.log2 n + k := by
  have hpos : 0 < 1 <<< k := by
    rw [Nat.one_shiftLeft]
    apply Nat.two_pow_pos
  have hne := Nat.ne_of_gt (Nat.mul_pos (Nat.pos_of_ne_zero hn) hpos)
  have hlow := Nat.mul_le_mul_right (1 <<< k) (Nat.log2_self_le hn)
  have hhigh := Nat.mul_lt_mul_of_pos_right (Nat.lt_log2_self (n := n)) hpos
  rw [Nat.one_shiftLeft, ← Nat.pow_add] at hlow hhigh
  rw [Nat.log2_eq_iff hne, Nat.one_shiftLeft, Nat.add_right_comm]
  exact ⟨hlow, hhigh⟩

namespace Binary64

theorem one_pos : 0 < one := by
  decide +kernel

theorem toWord_ofRounded (hs : s < maxScale)
    : (ofRounded false m s).toWord
        =
      .ofNat (min (UInt64.size - 1) (roundHalfUp (units m s) one)) := by
  unfold ofRounded
  by_cases hm : m = 1 <<< precision
  . have hunits : units (1 <<< (precision - 1)) (s + 1) = units m s := by
      unfold units
      rw [hm, ← Nat.shiftLeft_add, ← Nat.shiftLeft_add]
      simp only [precision]
      congr 1
      omega
    simp only [hm, if_true]
    rw [if_neg (by omega), ← hm, ← hunits]
    rfl
  . simp only [hm, if_false]
    rw [if_neg (by omega)]
    rfl

theorem units_eq (m s : Nat) : units m s = m * (1 <<< s) := by
  unfold units
  rw [Nat.shiftLeft_eq m, Nat.shiftLeft_eq 1, Nat.one_mul]

theorem one_shiftLeft : 1 <<< 1085 = 2048 * one := by
  decide +kernel

section Large

variable {n : Nat} (hlow : 9223372036854775808 ≤ n) (hhigh : n < UInt64.size)
include hlow hhigh

theorem log2_mul_one : Nat.log2 (n * one) = 1137 := by
  have hlog : Nat.log2 n = 63 := by
    rw [Nat.log2_eq_iff (by omega)]
    exact ⟨hlow, hhigh⟩
  unfold one
  rw [log2_mul_shiftLeft (by omega), hlog]

theorem ofRatio_one : ofRatio false n 1 = ofRounded false (roundHalfEven n 2048) 1085 := by
  have hne : n * one ≠ 0 := Nat.ne_of_gt (Nat.mul_pos (by omega) one_pos)
  unfold ofRatio
  simp only [Nat.div_one, if_neg hne, log2_mul_one hlow hhigh, precision]
  rw [one_shiftLeft, roundHalfEven_mul_right n 2048 one_pos]

theorem toWord_ofRatio_one
    : (ofRatio false n 1).toWord
        =
      .ofNat (min (UInt64.size - 1) (2048 * roundHalfEven n 2048)) := by
  have hunits : units (roundHalfEven n 2048) 1085 = 2048 * roundHalfEven n 2048 * one := by
    rw [units_eq, one_shiftLeft]
    ac_rfl
  rw [ofRatio_one hlow hhigh, toWord_ofRounded (by decide), hunits,
    roundHalfUp_mul_right _ one_pos]

end Large

def wordsForNumbers : List (List Char) :=
  ["nan".toList, "inf".toList, "infinity".toList]

theorem unsigned?_eq_decimal? (negative : Bool) {s : List Char}
    (h : ∀ word ∈ wordsForNumbers, s.map Char.toLower ≠ word)
    : unsigned? negative s = decimal? negative s := by
  simp only [wordsForNumbers, String.reduceToList, List.forall_mem_cons] at h
  unfold unsigned?
  simp [h]

theorem parse?_toDigits (n : Nat)
    : parse? (Nat.toDigits 10 n) = some (ofDecimal false n (Nat.toDigits 10 n).length 0) := by
  have hdigits := Text.isDigit_toDigits n
  have htake : (Nat.toDigits 10 n).takeWhile Char.isDigit = Nat.toDigits 10 n := by
    simpa using @List.takeWhile_append_of_pos _ _ _ [] hdigits
  have hdrop : (Nat.toDigits 10 n).dropWhile Char.isDigit = [] := by
    simpa using @List.dropWhile_append_of_pos _ _ _ [] hdigits
  have hwords : ∀ word ∈ wordsForNumbers, word.any Char.isDigit = false := by decide
  unfold parse?
  split
  . next h => exact absurd h (Text.toDigits_ne_cons (by decide) n _)
  . next h => exact absurd h (Text.toDigits_ne_cons (by decide) n _)
  . rw [unsigned?_eq_decimal?]
    . unfold decimal?
      simp [htake, hdrop]
    . intro word hword
      apply Text.map_toLower_toDigits_ne n (hwords word hword)

theorem ofDecimal_whole (hn : n ≠ 0) : ofDecimal false n count 0 = ofRatio false n 1 := by
  unfold ofDecimal
  simp [hn]
  omega

end Binary64

end Enclosure
