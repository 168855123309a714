import Enclosure.Descriptors
import Mathlib.Data.List.Sort

/-!
This module contains the theory of closing descriptors. The ranges that are closed cover exactly the
numbers after the standard ones that are not kept, and no bound of a range leaves the words that it
is computed in.
-/

namespace Enclosure

/-- A table in which closing a range closes the open descriptors of the range and no others, and is
refused only if the range ends before it starts. -/
class LawfulDescriptorTable (σ : Type) [DescriptorTable σ] where
  IsOpen : σ → UInt32 → Prop
  closeRange_eq_ok (first last : UInt32) (s : σ) :
    first ≤ last → (DescriptorTable.closeRange first last s).1 = .ok ()
  isOpen_closeRange (first last : UInt32) (s : σ) (fd : UInt32) : first ≤ last →
    (IsOpen (DescriptorTable.closeRange first last s).2 fd
      ↔ IsOpen s fd ∧ ¬ (first ≤ fd ∧ fd ≤ last))

namespace Descriptors

open LawfulDescriptorTable

theorem closeRange_of_le {first last : UInt32} (h : first ≤ last) (isOpen : List UInt32)
    : closeRange first last isOpen
        =
      (.ok (), isOpen.filter fun fd => !(first ≤ fd && fd ≤ last)) :=
  if_neg (UInt32.not_lt.mpr h)

instance : LawfulDescriptorTable (List UInt32) where
  IsOpen isOpen fd := fd ∈ isOpen
  closeRange_eq_ok first last isOpen h := by
    change (closeRange first last isOpen).1 = _
    rw [closeRange_of_le h]
  isOpen_closeRange first last isOpen fd h := by
    change fd ∈ (closeRange first last isOpen).2 ↔ _
    rw [closeRange_of_le h]
    simp only [List.mem_filter, Bool.not_eq_true', Bool.and_eq_false_iff, decide_eq_false_iff_not,
      not_and_or]

def Covers (r : UInt32 × UInt32) (fd : UInt32) : Prop :=
  r.1 ≤ fd ∧ fd ≤ r.2

variable {first fd : UInt32} {keep : List UInt32}

theorem le_of_mem_gaps {r : UInt32 × UInt32} (h : r ∈ gaps first keep) : r.1 ≤ r.2 := by
  induction keep generalizing first with
  | nil =>
    rw [gaps, List.mem_singleton] at h
    rw [h]
    unfold last
    grind
  | cons k keep ih =>
    unfold gaps at h
    split at h
    . exact ih h
    . split at h
      . exact ih h
      . rw [List.mem_cons] at h
        cases h with
        | inl h =>
          rw [h]
          grind
        | inr h => exact ih h

-- The gaps cover what is not kept, since a number below the next one to keep is none of those
-- that come later.
theorem covers_gaps_iff (hsorted : keep.Pairwise (· ≤ ·)) (hlast : ∀ k ∈ keep, k < last)
    : (∃ r ∈ gaps first keep, Covers r fd) ↔ first ≤ fd ∧ fd ∉ keep := by
  induction keep generalizing first with
  | nil =>
    have : fd ≤ last := by
      unfold last
      grind
    simp [gaps, Covers, this]
  | cons k keep ih =>
    rw [List.pairwise_cons] at hsorted
    rw [List.forall_mem_cons] at hlast
    have hrest := @ih (k + 1) hsorted.2 hlast.2
    have hnext : k + 1 ≤ fd ↔ k < fd := by
      have := hlast.1
      unfold last at this
      grind
    unfold gaps
    split
    . next hbelow =>
      rw [ih hsorted.2 hlast.2, List.mem_cons]
      grind
    . split
      . next hequal =>
        rw [hrest, hnext, List.mem_cons]
        grind
      . next habove =>
        -- What follows in the order is not below `k`, so all below it is in the gap.
        have hbefore : Covers (first, k - 1) fd ↔ first ≤ fd ∧ fd < k := by
          unfold Covers
          grind
        have hlater : fd ∈ keep → k ≤ fd := hsorted.1 fd
        simp only [List.mem_cons, or_and_right, exists_or, exists_eq_left, hbefore, hrest, hnext]
        clear ih hrest hbefore
        grind

def next? (fd : UInt32) : Option UInt32 :=
  if fd < last then some (fd + 1) else none

def previous? (fd : UInt32) : Option UInt32 :=
  if 0 < fd then some (fd - 1) else none

def gaps? (first : UInt32) : List UInt32 → Option (List (UInt32 × UInt32))
  | [] => some [(first, last)]
  | fd :: rest => do
    if fd < first then gaps? first rest
    else if fd = first then gaps? (← next? fd) rest
    else
      let before ← previous? fd
      return (first, before) :: (← gaps? (← next? fd) rest)

theorem gaps?_eq_gaps (hlast : ∀ k ∈ keep, k < last)
    : gaps? first keep = some (gaps first keep) := by
  induction keep generalizing first with
  | nil => rfl
  | cons k keep ih =>
    rw [List.forall_mem_cons] at hlast
    have hnext : next? k = some (k + 1) := if_pos hlast.1
    unfold gaps? gaps
    split
    . exact ih hlast.2
    . split
      . rw [hnext]
        exact ih hlast.2
      . next hbelow hne =>
        have hprevious : previous? k = some (k - 1) := by
          apply if_pos
          grind
        rw [hprevious, hnext]
        simp [ih hlast.2]

theorem pairwise_sorted (keep : List Int32) : (sorted keep).Pairwise (· ≤ ·) := by
  have htrans (a b c : Int32) (hab : decide (a ≤ b)) (hbc : decide (b ≤ c)) : decide (a ≤ c) := by
    rw [decide_eq_true_iff] at hab hbc ⊢
    exact Int32.le_trans hab hbc
  have htotal (a b : Int32) : decide (a ≤ b) || decide (b ≤ a) := by
    rw [Bool.or_eq_true, decide_eq_true_iff, decide_eq_true_iff]
    exact Int32.le_total a b
  exact (List.pairwise_mergeSort htrans htotal keep).imp of_decide_eq_true

theorem mem_sorted {k : Int32} {keep : List Int32} : k ∈ sorted keep ↔ k ∈ keep :=
  (List.mergeSort_perm keep _).mem_iff

theorem sorted_of_perm {keep keep' : List Int32} (h : keep'.Perm keep)
    : sorted keep' = sorted keep := by
  refine List.Perm.eq_of_pairwise ?_ (pairwise_sorted keep') (pairwise_sorted keep) ?_
  . intro a b _ _ hab hba
    exact Int32.le_antisymm hab hba
  . exact (List.mergeSort_perm _ _).trans (h.trans (List.mergeSort_perm _ _).symm)

section

variable {σ : Type} [DescriptorTable σ] [LawfulDescriptorTable σ]

theorem closeEach_cons {r : UInt32 × UInt32} (h : r.1 ≤ r.2) (ranges : List (UInt32 × UInt32))
    (s : σ)
    : closeEach (r :: ranges) s = closeEach ranges (DescriptorTable.closeRange r.1 r.2 s).2 := by
  have hok := closeRange_eq_ok r.1 r.2 s h
  simp only [closeEach, bind, StateT.bind]
  rcases hrun : (DescriptorTable.closeRange r.1 r.2 : StateM σ _) s with ⟨result, s'⟩
  rw [hrun] at hok
  cases hok
  rfl

theorem closeEach_spec {ranges : List (UInt32 × UInt32)} (h : ∀ r ∈ ranges, r.1 ≤ r.2) (s : σ)
    : (closeEach ranges s).1 = .ok ()
        ∧
      ∀ fd, IsOpen (closeEach ranges s).2 fd ↔ IsOpen s fd ∧ ¬ ∃ r ∈ ranges, Covers r fd := by
  induction ranges generalizing s with
  | nil =>
    refine ⟨rfl, fun fd => ?_⟩
    change IsOpen s fd ↔ _
    simp
  | cons r ranges ih =>
    rw [List.forall_mem_cons] at h
    obtain ⟨hok, hopen⟩ := ih h.2 (DescriptorTable.closeRange r.1 r.2 s).2
    rw [closeEach_cons h.1]
    refine ⟨hok, fun fd => ?_⟩
    rw [hopen, isOpen_closeRange r.1 r.2 s fd h.1]
    simp only [List.mem_cons, or_and_right, exists_or, exists_eq_left, not_or, and_assoc, Covers]

theorem lt_last_of_nonneg {k : Int32} (h : 0 ≤ k) : k.toUInt32 < last := by
  have := Int32.toNatClampNeg_lt k
  rw [UInt32.lt_iff_toNat_lt, Int32.toNat_toUInt32_of_le h]
  exact Nat.lt_trans this (by decide)

theorem pairwise_words {keep : List Int32} (h : ∀ k ∈ keep, 0 ≤ k)
    : ((sorted keep).map Int32.toUInt32).Pairwise (· ≤ ·) := by
  rw [List.pairwise_map]
  apply (pairwise_sorted keep).imp_of_mem
  intro a b ha _ hab
  exact Int32.toUInt32_le (h a (mem_sorted.mp ha)) hab

/-- Closing all descriptors but the standard ones and those to keep succeeds and closes exactly the
others. No range that is closed ends before it starts, no bound of a range leaves the words, and the
order of what is to be kept has no influence. -/
theorem isOpen_closeOthers_iff (keep : List Int32) (hkeep : ∀ k ∈ keep, 0 ≤ k) (s : σ)
    : (closeOthers keep s).1 = .ok ()
        ∧ (∀ fd,
            IsOpen (closeOthers keep s).2 fd
              ↔ IsOpen s fd ∧ (fd ≤ 2 ∨ fd ∈ keep.map Int32.toUInt32))
        ∧ (∀ r ∈ closedRanges keep, r.1 ≤ r.2)
        ∧ gaps? firstOther ((sorted keep).map Int32.toUInt32) = some (closedRanges keep)
        ∧ ∀ keep', keep'.Perm keep → (closeOthers keep' : StateM σ _) = closeOthers keep := by
  have hlast : ∀ w ∈ (sorted keep).map Int32.toUInt32, w < last := by
    rw [List.forall_mem_map]
    intro k hk
    exact lt_last_of_nonneg (hkeep k (mem_sorted.mp hk))
  have hranges : ∀ r ∈ closedRanges keep, r.1 ≤ r.2 := fun r => le_of_mem_gaps
  obtain ⟨hok, hopen⟩ := closeEach_spec hranges s
  refine ⟨hok, ?_, hranges, gaps?_eq_gaps hlast, ?_⟩
  . intro fd
    have hwords : fd ∈ (sorted keep).map Int32.toUInt32 ↔ fd ∈ keep.map Int32.toUInt32 := by
      simp only [List.mem_map, mem_sorted]
    have hstandard : firstOther ≤ fd ↔ ¬ fd ≤ 2 := by
      unfold firstOther
      grind
    unfold closeOthers
    rw [hopen fd]
    unfold closedRanges
    rw [covers_gaps_iff (pairwise_words hkeep) hlast, hwords, hstandard, not_and_or, not_not,
      not_not]
  . intro keep' hperm
    unfold closeOthers closedRanges
    rw [sorted_of_perm hperm]

end

theorem isOpen_closeOthers_iff_of_mixed
    : (∀ k ∈ [9, 1, 4, 9, 2, 5, 70], (0 : Int32) ≤ k)
        ∧ ∀ fd,
            fd ∈ (closeOthers [9, 1, 4, 9, 2, 5, 70] [0, 2, 3, 4, 5, 6, 8, 9, (10 : UInt32)]).2
              ↔ fd ∈ [0, 2, 4, 5, 9] := by
  have hkeep : ∀ k ∈ [9, 1, 4, 9, 2, 5, 70], (0 : Int32) ≤ k := by simp
  have hopen := (isOpen_closeOthers_iff _ hkeep [0, 2, 3, 4, 5, 6, 8, 9, (10 : UInt32)]).2.1
  refine ⟨hkeep, fun fd => (hopen fd).trans ?_⟩
  change fd ∈ [0, 2, 3, 4, 5, 6, 8, 9, 10] ∧ (fd ≤ 2 ∨ fd ∈ [9, 1, 4, 9, 2, 5, 70]) ↔ _
  simp only [List.mem_cons, List.not_mem_nil]
  grind

end Descriptors
end Enclosure
