import Enclosure.Text.Number

/-!
This module contains the theory of whole numbers in decimal. A text is a number exactly if it
consists of digits, and a number that has been written is read back.
-/

namespace Enclosure.Text

variable {s : List Char} {n width : Nat}

theorem go_eq_ofDigitChars (h : ∀ c ∈ s, c.isDigit)
    : natural?.go s n = some (Nat.ofDigitChars 10 s n) := by
  induction s generalizing n with
  | nil => rfl
  | cons c cs ih =>
    rw [List.forall_mem_cons] at h
    simp only [natural?.go, digit?, h.1, if_true]
    apply ih h.2

theorem isDigit_of_go (h : natural?.go s n = some m) : ∀ c ∈ s, c.isDigit := by
  induction s generalizing n with
  | nil => simp
  | cons c cs ih =>
    simp only [natural?.go, digit?] at h
    split at h
    . next hc => exact List.forall_mem_cons.mpr ⟨hc, ih h⟩
    . contradiction

theorem natural?_of_digits (hs : s ≠ []) (h : ∀ c ∈ s, c.isDigit)
    : natural? s = some (Nat.ofDigitChars 10 s 0) := by
  unfold natural?
  rw [if_neg (by simpa using hs)]
  apply go_eq_ofDigitChars h

theorem natural?_eq_none (hc : c ∈ s) (h : ¬ c.isDigit) : natural? s = none := by
  unfold natural?
  split
  . rfl
  . rw [Option.eq_none_iff_forall_ne_some]
    intro n hn
    exact h (isDigit_of_go hn c hc)

theorem isDigit_toDigits (n : Nat) : ∀ c ∈ Nat.toDigits 10 n, c.isDigit := by
  intro c
  apply Nat.isDigit_of_mem_toDigits (by decide) (by decide)

@[simp]
theorem natural?_toDigits (n : Nat) : natural? (Nat.toDigits 10 n) = some n := by
  rw [natural?_of_digits Nat.toDigits_ne_nil (isDigit_toDigits n), Nat.ofDigitChars_ten_toDigits]

def IsUnsigned (width : Nat) (s : List Char) (n : Nat) : Prop :=
  ∃ digits,
    (s = digits ∨ s = '+' :: digits)
      ∧ digits ≠ []
      ∧ (∀ c ∈ digits, c.isDigit)
      ∧ n = Nat.ofDigitChars 10 digits 0
      ∧ n < Nat.pow 2 width

theorem natural?_eq_some_iff
    : natural? s = some n
        ↔ s ≠ [] ∧ (∀ c ∈ s, c.isDigit) ∧ n = Nat.ofDigitChars 10 s 0 := by
  constructor
  . intro h
    have hne : s ≠ [] := by
      rintro rfl
      contradiction
    have hdigits : ∀ c ∈ s, c.isDigit := by
      unfold natural? at h
      split at h
      . contradiction
      . exact isDigit_of_go h
    rw [natural?_of_digits hne hdigits, Option.some.injEq] at h
    exact ⟨hne, hdigits, h.symm⟩
  . rintro ⟨hne, hdigits, rfl⟩
    apply natural?_of_digits hne hdigits

theorem unsigned?_eq_some_iff : unsigned? width s = some n ↔ IsUnsigned width s n := by
  have hplus : ¬ '+'.isDigit := by decide
  unfold unsigned? IsUnsigned
  rw [Option.filter_eq_some_iff, natural?_eq_some_iff, Nat.shiftLeft_eq, Nat.one_mul,
    decide_eq_true_iff, ← Nat.pow_eq]
  constructor
  . rintro ⟨⟨hne, hdigits, hn⟩, hlt⟩
    refine ⟨_, ?_, hne, hdigits, hn, hlt⟩
    split
    . exact .inr rfl
    . exact .inl rfl
  . rintro ⟨digits, hs, hne, hdigits, hn, hlt⟩
    split
    . next digits' =>
      cases hs with
      | inl h =>
        subst h
        exact absurd (hdigits '+' (by simp)) hplus
      | inr h =>
        cases h
        exact ⟨⟨hne, hdigits, hn⟩, hlt⟩
    . next hsign =>
      obtain rfl := hs.resolve_right (hsign digits)
      exact ⟨⟨hne, hdigits, hn⟩, hlt⟩

theorem isUnsigned_toDigits (h : n < Nat.pow 2 width) : IsUnsigned width (Nat.toDigits 10 n) n :=
  ⟨_, .inl rfl, Nat.toDigits_ne_nil, isDigit_toDigits n, Nat.ofDigitChars_ten_toDigits.symm, h⟩

theorem toLower_of_isDigit {c : Char} (h : c.isDigit) : c.toLower = c := by
  unfold Char.isDigit at h
  simp only [Bool.and_eq_true, decide_eq_true_eq] at h
  unfold Char.toLower
  apply dif_neg
  intro hupper
  exact absurd (UInt32.le_trans hupper.1 h.2) (by decide)

theorem map_toLower_ne {c : Char} {word : List Char} (hc : c ∈ s) (hlower : c.toLower = c)
    (hword : c ∉ word)
    : s.map Char.toLower ≠ word := by
  rintro rfl
  apply hword
  rw [List.mem_map]
  exact ⟨c, hc, hlower⟩

theorem map_toLower_toDigits_ne (n : Nat) {word : List Char} (h : word.any Char.isDigit = false)
    : (Nat.toDigits 10 n).map Char.toLower ≠ word := by
  obtain ⟨c, hc⟩ := List.exists_mem_of_ne_nil _ (Nat.toDigits_ne_nil (n := n) (b := 10))
  have hdigit := isDigit_toDigits n c hc
  apply map_toLower_ne hc (toLower_of_isDigit hdigit)
  intro hword
  exact Bool.eq_false_iff.mp h (List.any_eq_true.mpr ⟨c, hword, hdigit⟩)

theorem toDigits_ne_cons {c : Char} (h : ¬ c.isDigit) (n : Nat) (cs : List Char)
    : Nat.toDigits 10 n ≠ c :: cs := by
  intro hdigits
  apply h
  apply isDigit_toDigits n
  simp [hdigits]

theorem signed?_toDigits (width n : Nat)
    : signed? width (Nat.toDigits 10 n)
        =
      if n < 1 <<< (width - 1) then some (n : Int) else none := by
  unfold signed?
  split
  . next h => exact absurd h (toDigits_ne_cons (by decide) n _)
  . next h => exact absurd h (toDigits_ne_cons (by decide) n _)
  . rw [natural?_toDigits, Option.filter_some]
    by_cases h : n < 1 <<< (width - 1)
    . simp [h]
    . simp [h]

theorem signed?_eq_none (hc : c ∈ s) (hdigit : ¬ c.isDigit) (hminus : c ≠ '-') (hplus : c ≠ '+')
    : signed? width s = none := by
  unfold signed?
  split
  . next cs =>
    rw [natural?_eq_none (List.mem_of_ne_of_mem hminus hc) hdigit]
    rfl
  . next cs =>
    rw [natural?_eq_none (List.mem_of_ne_of_mem hplus hc) hdigit]
    rfl
  . rw [natural?_eq_none hc hdigit]
    rfl

theorem toList_toString (n : Nat) : (toString n).toList = Nat.toDigits 10 n := by
  rw [Nat.toString_eq_ofList_toDigits, String.toList_ofList]

theorem toList_toString_word (n : UInt64) : (toString n).toList = Nat.toDigits 10 n.toNat :=
  toList_toString n.toNat

end Enclosure.Text
