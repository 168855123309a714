import Enclosure.Supervisor.Server

/-!
This module contains what a supervisor does when it starts the frames that it has received: it
starts them one after the other from the front of its buffer, until no slot is free, no complete
frame is left, or a frame is malformed.
-/

namespace Enclosure.Supervisor

def tasksFrom (first : Nat) (verdict : Nat → Option Verdict) (rs : List (Request F))
    : List (Task F) :=
  (rs.zipIdx first).map fun p => ⟨p.2, p.1, verdict p.2⟩

theorem length_tasksFrom (first : Nat) (verdict : Nat → Option Verdict) (rs : List (Request F))
    : (tasksFrom first verdict rs).length = rs.length := by
  simp [tasksFrom]

theorem tasksFrom_append (first : Nat) (verdict : Nat → Option Verdict) (rs rs' : List (Request F))
    : tasksFrom first verdict (rs ++ rs')
        =
      tasksFrom first verdict rs ++ tasksFrom (first + rs.length) verdict rs' := by
  simp [tasksFrom, List.zipIdx_append]

theorem tasksFrom_congr (first : Nat) (rs : List (Request F))
    {verdict verdict' : Nat → Option Verdict}
    (h : ∀ i, first ≤ i → i < first + rs.length → verdict i = verdict' i)
    : tasksFrom first verdict rs = tasksFrom first verdict' rs := by
  unfold tasksFrom
  apply List.map_congr_left
  intro p hp
  have := List.mem_zipIdx hp
  rw [h p.2 (by omega) (by omega)]

theorem getElem_tasksFrom (first : Nat) (verdict : Nat → Option Verdict) (rs : List (Request F))
    (i : Nat) (hi : i < rs.length) (h : i < (tasksFrom first verdict rs).length)
    : (tasksFrom first verdict rs)[i] = ⟨first + i, rs[i], verdict (first + i)⟩ := by
  simp [tasksFrom]

theorem of_mem_tasksFrom {first : Nat} {verdict : Nat → Option Verdict} {rs : List (Request F)}
    {t : Task F} (h : t ∈ tasksFrom first verdict rs)
    : t.id < first + rs.length ∧ t.result = verdict t.id := by
  unfold tasksFrom at h
  rw [List.mem_map] at h
  obtain ⟨p, hp, rfl⟩ := h
  have := List.mem_zipIdx hp
  exact ⟨by dsimp only; omega, rfl⟩

theorem map_request_tasksFrom (first : Nat) (verdict : Nat → Option Verdict)
    (rs : List (Request F))
    : (tasksFrom first verdict rs).map Task.request = rs := by
  simp only [tasksFrom, List.map_map]
  exact List.zipIdx_map_fst first rs

namespace Server

def NoFrame (s : Server F) : Prop :=
  Frame.length? s.inbuf = .ok none
    ∨ ∃ size, Frame.length? s.inbuf = .ok (some size) ∧ s.inbuf.length < size

def frontBody (s : Server F) (size : Nat) : List UInt8 :=
  (s.inbuf.take size).drop Frame.lengthSize

def Malformed (s : Server F) (e : FrameError) : Prop :=
  Frame.length? s.inbuf = .error e
    ∨ ∃ size,
        Frame.length? s.inbuf = .ok (some size)
          ∧ size ≤ s.inbuf.length
          ∧ (Request.decode (s.frontBody size) s.descriptors).1 = .error e

def next (s : Server F) (size : Nat) (r : Request F) (descriptors : List F) : Server F :=
  { s with
    inbuf := s.inbuf.drop size
    descriptors
    inFlight := s.inFlight ++ [⟨s.started, r, none⟩]
    started := s.started + 1 }

inductive Starts : Server F → List (Request F) → Server F → Prop where
  | nil (s : Server F) : Starts s [] s
  | cons {s s' : Server F}
      (hlength : Frame.length? s.inbuf = .ok (some size))
      (hsize : size ≤ s.inbuf.length)
      (hdecode : Request.decode (s.frontBody size) s.descriptors = (.ok r, left))
      (hrest : Starts (s.next size r left) rs s')
      : Starts s (r :: rs) s'

theorem startOne_error {s : Server F}
    (h : Request.decode (s.frontBody size) s.descriptors = (.error e, left))
    : s.startOne size = ({ s with descriptors := left }, some e) := by
  unfold frontBody at h
  unfold startOne
  rw [h]

theorem startOne_ok {s : Server F}
    (h : Request.decode (s.frontBody size) s.descriptors = (.ok r, left))
    : s.startOne size = (s.next size r left, none) := by
  unfold frontBody at h
  unfold startOne
  rw [h]
  rfl

theorem startUpTo_starts (room : Nat) (s : Server F)
    : ∃ rs s',
        Starts s rs s'
          ∧ rs.length ≤ room
          ∧ (s.startUpTo room = (s', none) ∧ (rs.length = room ∨ s'.NoFrame)
              ∨ ∃ e descriptors,
                  s.startUpTo room = ({ s' with descriptors }, some e) ∧ s'.Malformed e) := by
  induction room generalizing s with
  | zero => exact ⟨[], s, .nil s, Nat.le_refl 0, .inl ⟨rfl, .inl rfl⟩⟩
  | succ room ih =>
    unfold startUpTo
    cases hlength : Frame.length? s.inbuf with
    | error e =>
      exact ⟨[], s, .nil s, Nat.zero_le _, .inr ⟨e, s.descriptors, rfl, .inl hlength⟩⟩
    | ok length =>
      cases length with
      | none => exact ⟨[], s, .nil s, Nat.zero_le _, .inl ⟨rfl, .inr (.inl hlength)⟩⟩
      | some size =>
        dsimp only
        split
        . next hshort =>
          exact ⟨[], s, .nil s, Nat.zero_le _, .inl ⟨rfl, .inr (.inr ⟨size, hlength, hshort⟩)⟩⟩
        . next hsize =>
          have hsize : size ≤ s.inbuf.length := Nat.le_of_not_lt hsize
          rcases hdecode : Request.decode (s.frontBody size) s.descriptors with ⟨e | r, left⟩
          . rw [startOne_error hdecode]
            refine ⟨[], s, .nil s, Nat.zero_le _, .inr ⟨e, left, rfl, ?_⟩⟩
            refine .inr ⟨size, hlength, hsize, ?_⟩
            rw [hdecode]
          . rw [startOne_ok hdecode]
            obtain ⟨rs, s', hstarts, hroom, hres⟩ := ih (s.next size r left)
            refine ⟨r :: rs, s', .cons hlength hsize hdecode hstarts, Nat.succ_le_succ hroom, ?_⟩
            rw [List.length_cons, Nat.add_right_cancel_iff]
            exact hres

theorem startBuffered_starts (s : Server F)
    : ∃ rs s',
        Starts s rs s'
          ∧ rs.length ≤ s.maxParallel - s.inFlight.length
          ∧ (s.startBuffered = (s', none)
                ∧ (rs.length = s.maxParallel - s.inFlight.length ∨ s'.NoFrame)
              ∨ ∃ e descriptors,
                  s.startBuffered = ({ s' with descriptors }, some e) ∧ s'.Malformed e) :=
  startUpTo_starts (s.maxParallel - s.inFlight.length) s

theorem Starts.eq {s s' : Server F} (h : Starts s rs s')
    : s' =
        { s with
          inbuf := s'.inbuf
          descriptors := s'.descriptors
          inFlight := s.inFlight ++ tasksFrom s.started (fun _ => none) rs
          started := s.started + rs.length } := by
  induction h with
  | nil s => simp [tasksFrom]
  | cons _ _ _ _ ih =>
    rw [ih]
    simp [next, tasksFrom, Nat.add_comm, Nat.add_left_comm]

theorem Starts.isFull_or_noFrame {s s' : Server F} (h : Starts s rs s')
    (hfront : rs.length = s.maxParallel - s.inFlight.length ∨ s'.NoFrame)
    : s'.isFull = true ∨ s'.NoFrame := by
  cases hfront with
  | inr hnone => exact .inr hnone
  | inl hlength =>
    left
    rw [h.eq]
    unfold isFull
    simp only [List.length_append, length_tasksFrom, decide_eq_true_eq]
    omega

end Server
end Enclosure.Supervisor
