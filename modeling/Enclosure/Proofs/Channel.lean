import Enclosure.Channel

/-!
This module contains flows, the bytes of a channel with the descriptors that each of them comes
with: however a flow is cut into receives, bytes and descriptors come out in its order.
-/

namespace Enclosure

abbrev Flow (F : Type) := List (UInt8 × List F)

namespace Flow

def bytes (s : Flow F) : List UInt8 :=
  s.map Prod.fst

def descriptors (s : Flow F) : List F :=
  s.flatMap Prod.snd

theorem bytes_append (s t : Flow F) : bytes (s ++ t) = bytes s ++ bytes t :=
  List.map_append

theorem descriptors_append (s t : Flow F)
    : descriptors (s ++ t) = descriptors s ++ descriptors t :=
  List.flatMap_append

theorem length_bytes (s : Flow F) : (bytes s).length = s.length :=
  List.length_map Prod.fst

theorem bytes_take (s : Flow F) (n : Nat) : bytes (s.take n) = (bytes s).take n :=
  List.map_take

theorem bytes_drop (s : Flow F) (n : Nat) : bytes (s.drop n) = (bytes s).drop n :=
  List.map_drop

def plain (bytes : List UInt8) : Flow F :=
  bytes.map fun b => (b, [])

theorem bytes_plain (l : List UInt8) : bytes (plain l : Flow F) = l := by
  simp [bytes, plain, Function.comp_def]

theorem descriptors_plain (l : List UInt8) : descriptors (plain l : Flow F) = [] := by
  simp [descriptors, plain]

def ofSegment : Segment F → Flow F
  | ⟨[], _⟩ => []
  | ⟨b :: bytes, descriptors⟩ => (b, descriptors) :: plain bytes

def ofSegments (segments : List (Segment F)) : Flow F :=
  segments.flatMap ofSegment

theorem ofSegment_of_no_descriptors (l : List UInt8)
    : ofSegment (⟨l, []⟩ : Segment F) = plain l := by
  cases l with
  | nil => rfl
  | cons b l => rfl

theorem bytes_ofSegment (s : Segment F) : bytes (ofSegment s) = s.bytes := by
  rcases s with ⟨_ | ⟨b, l⟩, ds⟩
  . rfl
  . change b :: bytes (plain l) = _
    rw [bytes_plain]

theorem descriptors_ofSegment (s : Segment F) (h : s.bytes ≠ [])
    : descriptors (ofSegment s) = s.descriptors := by
  rcases s with ⟨_ | ⟨b, l⟩, ds⟩
  . contradiction
  . change ds ++ descriptors (plain l) = _
    rw [descriptors_plain, List.append_nil]

theorem ofSegment_split (s : Segment F) (n : Nat) (hn : 0 < n)
    : ofSegment s = ofSegment ⟨s.bytes.take n, s.descriptors⟩ ++ plain (s.bytes.drop n) := by
  rcases s with ⟨_ | ⟨b, l⟩, ds⟩
  . simp [ofSegment, plain]
  . cases n with
    | zero => contradiction
    | succ n =>
      simp only [List.take_succ_cons, List.drop_succ_cons, ofSegment, List.cons_append]
      unfold plain
      rw [← List.map_append, List.take_append_drop]

end Flow

namespace Channel

open Flow (ofSegment ofSegments)

theorem takeFrom_eq {n : Nat} {segments rest : List (Segment F)} {bytes : List UInt8} {ds : List F}
    (hn : 0 < n) (hne : ∀ s ∈ segments, s.bytes ≠ [])
    (h : takeFrom n segments = (bytes, ds, rest))
    : ∃ taken : Flow F,
        ofSegments segments = taken ++ ofSegments rest
          ∧ taken.bytes = bytes
          ∧ taken.descriptors = ds
          ∧ ∀ s ∈ rest, s.bytes ≠ [] := by
  induction segments generalizing n bytes ds rest with
  | nil =>
    cases h
    exact ⟨[], rfl, rfl, rfl, hne⟩
  | cons s segments ih =>
    rw [List.forall_mem_cons] at hne
    obtain ⟨hs, hne⟩ := hne
    have hcons (l : List (Segment F)) (s : Segment F)
        : ofSegments (s :: l) = ofSegment s ++ ofSegments l := List.flatMap_cons
    unfold takeFrom at h
    split at h
    . next hlt =>
      cases h
      refine ⟨ofSegment ⟨s.bytes.take n, s.descriptors⟩, ?_, Flow.bytes_ofSegment _, ?_, ?_⟩
      . rw [hcons, hcons, Flow.ofSegment_of_no_descriptors, ← List.append_assoc,
          ← Flow.ofSegment_split s n hn]
      . apply Flow.descriptors_ofSegment
        simp [hs]
        omega
      . rw [List.forall_mem_cons]
        refine ⟨?_, hne⟩
        simp
        omega
    . split at h
      . next hglue =>
        -- A send without descriptors is glued to what follows it.
        rcases htake : takeFrom (n - s.bytes.length) segments with ⟨bytes', ds', rest'⟩
        rw [htake] at h
        cases h
        simp at hglue
        obtain ⟨taken, heq, hbytes, hds, hrest⟩ := ih (by omega) hne htake
        refine ⟨ofSegment s ++ taken, ?_, ?_, ?_, hrest⟩
        . rw [hcons, heq, List.append_assoc]
        . rw [Flow.bytes_append, Flow.bytes_ofSegment, hbytes]
        . rw [Flow.descriptors_append, Flow.descriptors_ofSegment s hs, hglue.1, hds]
          rfl
      . cases h
        exact ⟨ofSegment s, hcons _ _, Flow.bytes_ofSegment s, Flow.descriptors_ofSegment s hs, hne⟩

theorem receive_eq (c : Channel F) (n : Nat)
    : ∃ segments, (c.receive n).2 = { c with segments } := by
  unfold receive
  split
  . exact ⟨c.segments, rfl⟩
  . dsimp only
    split
    . exact ⟨_, rfl⟩
    . exact ⟨_, rfl⟩

theorem takeFrom_of_receive {c c' : Channel F} {bytes : List UInt8} {ds : List F}
    (h : c.receive n = (.ok (bytes, ds), c'))
    : ∃ segments, takeFrom n c.segments = (bytes, ds, segments) ∧ c' = { c with segments } := by
  unfold receive at h
  split at h
  . next hempty =>
    split at h
    . cases h
      refine ⟨[], ?_, ?_⟩
      . rw [List.isEmpty_iff.mp hempty]
        rfl
      . rw [← List.isEmpty_iff.mp hempty]
    . simp at h
  . dsimp only at h
    split at h
    . simp at h
    . cases h
      exact ⟨_, rfl, rfl⟩

theorem length_takeFrom_le (n : Nat) (segments : List (Segment F))
    : (takeFrom n segments).1.length ≤ n := by
  induction segments generalizing n with
  | nil => exact Nat.zero_le n
  | cons s segments ih =>
    unfold takeFrom
    split
    . exact List.length_take_le n s.bytes
    . next hle =>
      split
      . next hglue =>
        simp only [Bool.and_eq_true, decide_eq_true_eq] at hglue
        have := ih (n - s.bytes.length)
        rw [List.length_append]
        omega
      . exact Nat.le_of_not_lt hle

theorem takeFrom_singleton {bytes : List UInt8} (h : bytes.length ≤ n) (ds : List F)
    : takeFrom n [⟨bytes, ds⟩] = (bytes, ds, []) := by
  unfold takeFrom
  rw [if_neg (Nat.not_lt.mpr h)]
  split
  . next hglue =>
    simp only [Bool.and_eq_true, List.isEmpty_iff] at hglue
    simp [takeFrom, hglue.1]
  . rfl

theorem empty_of_receive_again {c c' : Channel F}
    (h : c.receive n = (.error (.system .again), c'))
    : c.segments = [] ∧ c.closed = false := by
  unfold receive at h
  split at h
  . next hempty =>
    split at h
    . simp at h
    . next hopen => exact ⟨List.isEmpty_iff.mp hempty, Bool.eq_false_iff.mpr hopen⟩
  . dsimp only at h
    split at h
    . simp at h
    . simp at h

end Channel
end Enclosure
