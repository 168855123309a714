import Enclosure.Proofs.Path
import Enclosure.Proofs.Text.Number
import Mathlib.Data.List.Basic
import Mathlib.Data.List.TakeWhile

/-!
This module contains where the parts of a list stand in it, and with that the words and the lines of
a text.
-/

namespace Enclosure

def IsPart (p : α → Bool) (part as : List α) : Prop :=
  ∃ front back,
    as = front ++ part ++ back
      ∧ (∀ a, front.getLast? = some a → p a) ∧ ∀ a, back.head? = some a → p a

theorem IsPart.append_cons {p : α → Bool} {part as : List α} (h : IsPart p part as) {a : α}
    (ha : p a) (bs : List α)
    : IsPart p part (as ++ a :: bs) := by
  obtain ⟨front, back, rfl, hfront, hback⟩ := h
  refine ⟨front, back ++ a :: bs, by simp, hfront, ?_⟩
  intro b hb
  cases back with
  | nil =>
    obtain rfl : a = b := by simpa using hb
    exact ha
  | cons c back => exact hback b (by simpa using hb)

theorem IsPart.cons_append {p : α → Bool} {part as : List α} (h : IsPart p part as) {a : α}
    (ha : p a) (bs : List α)
    : IsPart p part (bs ++ a :: as) := by
  obtain ⟨front, back, rfl, hfront, hback⟩ := h
  refine ⟨bs ++ a :: front, back, by simp, ?_, hback⟩
  intro b hb
  rw [List.getLast?_append_cons] at hb
  cases front with
  | nil =>
    obtain rfl : a = b := by simpa using hb
    exact ha
  | cons c front => exact hfront b (by simpa using hb)

theorem isPart_of_mem_split {p : α → Bool} {part as : List α} (h : part ∈ split p as)
    : (∀ a ∈ part, p a = false) ∧ IsPart p part as := by
  by_cases hsome : ∃ a ∈ as, p a
  . -- At any separator, the list falls into two shorter ones.
    obtain ⟨a, hmem, ha⟩ := hsome
    obtain ⟨left, right, rfl⟩ := List.append_of_mem hmem
    rw [split_append_cons _ _ ha, List.mem_append] at h
    cases h with
    | inl h =>
      obtain ⟨hpart, his⟩ := isPart_of_mem_split h
      exact ⟨hpart, his.append_cons ha right⟩
    | inr h =>
      obtain ⟨hpart, his⟩ := isPart_of_mem_split h
      exact ⟨hpart, his.cons_append ha left⟩
  . have hnone : ∀ a ∈ as, p a = false := by simpa using hsome
    rw [split_of_forall_not hnone, List.mem_singleton] at h
    rw [h]
    exact ⟨hnone, [], [], by simp, by simp, by simp⟩
termination_by as.length

theorem mem_split_iff {p : α → Bool} {part as : List α}
    : part ∈ split p as ↔ (∀ a ∈ part, p a = false) ∧ IsPart p part as := by
  refine ⟨isPart_of_mem_split, ?_⟩
  rintro ⟨hpart, front, back, rfl, hfront, hback⟩
  have hlast : part ∈ split p (part ++ back) := by
    cases back with
    | nil =>
      rw [List.append_nil, split_of_forall_not hpart]
      exact List.mem_singleton_self part
    | cons b back =>
      rw [split_append_cons _ _ (hback b rfl), split_of_forall_not hpart]
      exact List.mem_append_left _ (List.mem_singleton_self part)
  rw [List.append_assoc]
  obtain rfl | ⟨front, a, rfl⟩ := List.eq_nil_or_concat' front
  . exact hlast
  . rw [List.append_assoc, List.singleton_append, split_append_cons _ _ (hfront a (by simp))]
    exact List.mem_append_right _ hlast

theorem afterStart?_eq_some_iff [DecidableEq α] {start as rest : List α}
    : afterStart? start as = some rest ↔ as = start ++ rest := by
  unfold afterStart?
  split
  . next h =>
    obtain ⟨as, rfl⟩ := List.isPrefixOf_iff_prefix.mp h
    simp
  . next h =>
    simp only [reduceCtorEq, false_iff]
    rintro rfl
    simp at h

theorem afterStart?_eq_none_iff [DecidableEq α] {start as : List α}
    : afterStart? start as = none ↔ ¬ start <+: as := by
  unfold afterStart?
  simp [List.isPrefixOf_iff_prefix]

theorem isSome_beforeEnd? [DecidableEq α] {tail as : List α}
    : (beforeEnd? tail as).isSome ↔ tail <:+ as := by
  unfold beforeEnd? afterStart?
  simp [List.isPrefixOf_iff_prefix]

namespace Text

theorem mem_words_iff {s word : List Char} (hne : word ≠ []) (h : ∀ c ∈ word, isBlank c = false)
    : word ∈ words s ↔ IsPart isBlank word s := by
  unfold words
  rw [List.mem_filter, mem_split_iff]
  simp only [ne_eq, hne, not_false_eq_true, decide_true, and_true, and_iff_right_iff_imp]
  exact fun _ => h

theorem words_append_cons (s : List Char) {c : Char} (hc : isBlank c) (t : List Char)
    : words (s ++ c :: t) = words s ++ words t := by
  unfold words
  rw [split_append_cons _ _ hc, List.filter_append]

theorem words_of_word {word : List Char} (hne : word ≠ []) (h : ∀ c ∈ word, isBlank c = false)
    : words word = [word] := by
  unfold words
  rw [split_of_forall_not h]
  simp [hne]

theorem isBlank_of_isDigit {c : Char} (h : c.isDigit) : isBlank c = false := by
  unfold Char.isDigit at h
  simp only [Bool.and_eq_true, decide_eq_true_eq] at h
  have hlow : 48 ≤ c.toNat := UInt32.le_iff_toNat_le.mp h.1
  have hhigh : c.toNat ≤ 57 := UInt32.le_iff_toNat_le.mp h.2
  unfold isBlank
  simp only [Bool.or_eq_false_iff, Bool.and_eq_false_iff, decide_eq_false_iff_not]
  omega

theorem words_toDigits (n : Nat) : words (Nat.toDigits 10 n) = [Nat.toDigits 10 n] :=
  words_of_word Nat.toDigits_ne_nil fun c hc => isBlank_of_isDigit (isDigit_toDigits n c hc)

theorem lines_append_cons {line : List Char} (hline : '\n' ∉ line) (hend : ¬ ['\r'] <:+ line)
    (rest : List Char)
    : lines (line ++ '\n' :: rest) = line :: lines rest := by
  have hkept : beforeEnd? ['\r'] line = none := by
    rwa [← Option.not_isSome_iff_eq_none, isSome_beforeEnd?]
  have hone : split (· = '\n') line = [line] :=
    split_of_forall_not fun c hc => decide_eq_false (ne_of_mem_of_not_mem hc hline)
  obtain ⟨part, parts, hparts⟩ := List.exists_cons_of_ne_nil (split_ne_nil (· = '\n') rest)
  unfold lines
  rw [split_append_cons _ _ (by decide), hone, hparts, List.singleton_append]
  dsimp only
  rw [List.dropLast_cons_cons, List.map_cons, List.getLast?_cons_cons, hkept]
  rfl

theorem lines_flatMap {ls : List (List Char)}
    (h : ∀ line ∈ ls, '\n' ∉ line ∧ ¬ ['\r'] <:+ line)
    : lines (ls.flatMap (· ++ ['\n'])) = ls := by
  induction ls with
  | nil => rfl
  | cons line ls ih =>
    rw [List.forall_mem_cons] at h
    rw [List.flatMap_cons, List.append_assoc, List.singleton_append,
      lines_append_cons h.1.1 h.1.2, ih h.2]

theorem trim_eq_nil_iff (s : List Char) : trim s = [] ↔ ∀ c ∈ s, isBlank c := by
  unfold trim trimEnd
  rw [List.reverse_eq_nil_iff, List.dropWhile_eq_nil_iff]
  simp only [List.mem_reverse]
  constructor
  . -- What is left in front would start with something that is no blank.
    intro h
    cases hleft : s.dropWhile isBlank with
    | nil => exact List.dropWhile_eq_nil_iff.mp hleft
    | cons c cs =>
      have hne : s.dropWhile isBlank ≠ [] := by simp [hleft]
      have hc := List.head_dropWhile_not isBlank hne
      simp only [hleft, List.head_cons] at hc
      rw [h c (by simp [hleft])] at hc
      contradiction
  . intro h c hc
    exact h c ((List.dropWhile_sublist _).mem hc)

end Text

end Enclosure
