import Mathlib.Order.Bounds.Defs
import Enclosure.Proofs.Reader.Strict
import Enclosure.Proofs.Supervisor.Queue
import Enclosure.Proofs.Supervisor.Start

/-!
This module contains the agreement between the two ways that a supervisor has through its buffer.
Counting steps over as many complete frames as there are, and starting takes exactly these, if there
are slots for them and each of them is well-formed.
-/

namespace Enclosure

namespace Frame

variable {f buf : List UInt8}

theorem IsWhole.fits (h : IsWhole f) : (f.drop lengthSize).length ≤ maxBody := by
  have := length_le_of_length? h
  rw [List.length_drop]
  omega

theorem IsWhole.eq_ofBody (h : IsWhole f) : f = ofBody (f.drop lengthSize) := by
  have hlength : (f.take lengthSize).length = lengthSize :=
    List.length_take_of_le (lengthSize_le_of_length? h).2
  have hhead := littleEndian_ofLittleEndian (f.take lengthSize)
  have hbody : ofLittleEndian (f.take lengthSize) = (f.drop lengthSize).length := by
    unfold IsWhole length? at h
    dsimp only at h
    rw [hlength, if_neg (Nat.lt_irrefl _)] at h
    split at h
    . contradiction
    . simp only [Except.ok.injEq, Option.some.injEq] at h
      rw [List.length_drop]
      omega
  rw [hlength, hbody] at hhead
  unfold ofBody
  rw [hhead, List.take_append_drop]

theorem isWhole_ofBody {body : List UInt8} (h : body.length ≤ maxBody)
    : IsWhole (ofBody body) := by
  have := length?_ofBody body [] h
  rw [List.append_nil] at this
  exact this

-- The error of a buffer that begins with a length above that of every body.
def oversized? (buf : List UInt8) : Option FrameError :=
  let body := ofLittleEndian (buf.take lengthSize)
  if lengthSize ≤ buf.length ∧ maxBody < body then some (.tooLarge body) else none

theorem oversized?_of_error {e : FrameError} (h : length? buf = .error e)
    : oversized? buf = some e := by
  have hlength := lengthSize_le_of_length?_error h
  unfold length? at h
  dsimp only at h
  rw [List.length_take_of_le hlength, if_neg (Nat.lt_irrefl _)] at h
  unfold oversized?
  dsimp only
  split at h
  . next hlarge =>
    rw [Except.error.injEq] at h
    rw [if_pos ⟨hlength, hlarge⟩, h]
  . contradiction

theorem oversized?_of_ok {size : Option Nat} (h : length? buf = .ok size)
    : oversized? buf = none := by
  unfold oversized?
  dsimp only
  apply if_neg
  rintro ⟨hlength, hlarge⟩
  unfold length? at h
  dsimp only at h
  rw [List.length_take_of_le hlength, if_neg (Nat.lt_irrefl _), if_pos hlarge] at h
  contradiction

end Frame

namespace Supervisor

open Frame (IsWhole NoneWhole lengthSize maxBody ofBody oversized?)

-- The buffer holds these bodies, each in its frame, and behind them the rest.
structure Framed (buf : List UInt8) (bodies : List (List UInt8)) (rest : List UInt8) : Prop where
  eq : buf = (bodies.map ofBody).flatten ++ rest
  fits : ∀ body ∈ bodies, body.length ≤ maxBody

-- Counting as a loop: each turn steps over one complete frame, and the first turn that does not
-- find one is the last.
inductive Counts : List UInt8 → Nat → Prop where
  | stop (h : NoneWhole buf) : Counts buf 0
  | step (hlength : Frame.length? buf = .ok (some size)) (hsize : size ≤ buf.length)
      (hrest : Counts (buf.drop size) n)
      : Counts buf (n + 1)

variable {buf rest : List UInt8} {bodies : List (List UInt8)}

namespace Framed

theorem whole (h : Framed buf bodies rest) : ∀ f ∈ bodies.map ofBody, IsWhole f :=
  List.forall_mem_map.mpr fun body hbody => Frame.isWhole_ofBody (h.fits body hbody)

theorem queuedFrames (h : Framed buf bodies rest)
    : queuedFrames buf = bodies.length + queuedFrames rest := by
  rw [h.eq, queuedFrames_flatten_append h.whole, List.length_map]

theorem append (h : Framed buf bodies rest) (more : List UInt8)
    : Framed (buf ++ more) bodies (rest ++ more) where
  eq := by rw [h.eq, List.append_assoc]
  fits := h.fits

theorem of_cons {body : List UInt8} (h : Framed buf (body :: bodies) rest)
    : Frame.length? buf = .ok (some (ofBody body).length)
        ∧ (ofBody body).length ≤ buf.length
        ∧ buf.take (ofBody body).length = ofBody body
        ∧ Framed (buf.drop (ofBody body).length) bodies rest := by
  obtain ⟨heq, hfits⟩ := h
  rw [List.forall_mem_cons] at hfits
  rw [List.map_cons, List.flatten_cons, List.append_assoc] at heq
  rw [heq, List.drop_left, List.take_left]
  exact ⟨Frame.length?_ofBody body _ hfits.1, by simp, rfl, rfl, hfits.2⟩

theorem noneWhole (h : Framed buf bodies rest)
    (hall : bodies.length = Supervisor.queuedFrames buf)
    : NoneWhole rest := by
  apply queuedFrames_eq_zero_iff.mp
  have := h.queuedFrames
  omega

theorem counts (h : Framed buf bodies rest) (hlast : NoneWhole rest)
    : Counts buf bodies.length := by
  induction bodies generalizing buf with
  | nil =>
    rw [h.eq]
    exact .stop hlast
  | cons body bodies ih =>
    obtain ⟨hlength, hsize, _, hrest⟩ := h.of_cons
    exact .step hlength hsize (ih hrest)

end Framed

theorem exists_framed (buf : List UInt8)
    : ∃ bodies rest, Framed buf bodies rest ∧ bodies.length = queuedFrames buf := by
  obtain ⟨fs, rest, hcut⟩ := exists_cut buf
  have hbodies : (fs.map (List.drop lengthSize)).map ofBody = fs := by
    rw [List.map_map]
    calc fs.map (ofBody ∘ List.drop lengthSize)
      _ = fs.map id := List.map_congr_left fun f hf => (hcut.whole f hf).eq_ofBody.symm
      _ = fs := List.map_id fs
  refine ⟨fs.map (List.drop lengthSize), rest, ⟨?_, ?_⟩, ?_⟩
  . rw [hbodies, hcut.eq]
  . exact List.forall_mem_map.mpr fun f hf => (hcut.whole f hf).fits
  . rw [List.length_map, hcut.queuedFrames]

theorem queuedFrames_le_append (buf more : List UInt8)
    : queuedFrames buf ≤ queuedFrames (buf ++ more) := by
  obtain ⟨bodies, rest, h, hlength⟩ := exists_framed buf
  have := (h.append more).queuedFrames
  omega

theorem counts_iff {n : Nat} : Counts buf n ↔ n = queuedFrames buf := by
  constructor
  . intro h
    induction h with
    | stop hnone => exact (queuedFrames_eq_zero hnone).symm
    | step hlength hsize _ ih => rw [queuedFrames_of_length? hlength hsize, ih]
  . rintro rfl
    obtain ⟨bodies, rest, h, hall⟩ := exists_framed buf
    rw [← hall]
    exact h.counts (h.noneWhole hall)

-- Decodes bodies in order, each with descriptors from the front of those that are left by the
-- ones before it. Gives nothing if one of them is malformed.
def decodeEach : List (List UInt8) → List F → Option (List (Request F) × List F)
  | [], descriptors => some ([], descriptors)
  | body :: bodies, descriptors =>
    match Request.decode body descriptors with
    | (.error _, _) => none
    | (.ok r, descriptors) => (decodeEach bodies descriptors).map fun p => (r :: p.1, p.2)

namespace Server

theorem startUpTo_of_starts {s s' : Server F} {rs : List (Request F)} (h : Starts s rs s')
    (room : Nat)
    : s.startUpTo (room + rs.length) = s'.startUpTo room := by
  induction h with
  | nil s => rfl
  | cons hlength hsize hdecode _ ih =>
    rw [List.length_cons, ← Nat.add_assoc, startUpTo, hlength]
    dsimp only
    rw [if_neg (Nat.not_lt.mpr hsize), startOne_ok hdecode]
    exact ih

theorem startUpTo_of_noneWhole {s : Server F} (h : NoneWhole s.inbuf) (room : Nat)
    : s.startUpTo room = (s, if 0 < room then oversized? s.inbuf else none) := by
  cases room with
  | zero => rfl
  | succ room =>
    rw [if_pos (Nat.succ_pos room)]
    unfold startUpTo
    split
    . next e herror => rw [Frame.oversized?_of_error herror]
    . next hnone => rw [Frame.oversized?_of_ok hnone]
    . next size hlength =>
      rw [Frame.oversized?_of_ok hlength, if_pos (h size hlength)]

theorem exists_starts {s : Server F} {rs : List (Request F)} {left : List F}
    (h : Framed s.inbuf bodies rest) (hdecode : decodeEach bodies s.descriptors = some (rs, left))
    : ∃ s',
        Starts s rs s'
          ∧ s'.inbuf = rest
          ∧ s'.descriptors = left
          ∧ rs.length = bodies.length := by
  induction bodies generalizing s rs with
  | nil =>
    cases hdecode
    exact ⟨s, .nil s, h.eq, rfl, rfl⟩
  | cons body bodies ih =>
    obtain ⟨hlength, hsize, hfront, hrest⟩ := h.of_cons
    unfold decodeEach at hdecode
    split at hdecode
    . contradiction
    . next r descriptors hbody =>
      rw [Option.map_eq_some_iff] at hdecode
      obtain ⟨⟨rs, left⟩, hdecode, hrs⟩ := hdecode
      cases hrs
      obtain ⟨s', hstarts, hinbuf, hleft, hcount⟩ :=
        ih (s := s.next (ofBody body).length r descriptors) hrest hdecode
      refine ⟨s', .cons hlength hsize ?_ hstarts, hinbuf, hleft, congrArg (· + 1) hcount⟩
      rw [frontBody, hfront, Frame.drop_ofBody, hbody]

end Server

/-- The number of frames that are counted is the largest number of complete frames that the buffer
begins with, and every buffer is counted to an end. Frames in front add their number to that of what
is behind them, so that the number never becomes less when something arrives. If each frame that is
counted is well-formed and enough slots are free, then exactly these frames are started and the rest
stays. With one more slot the rest is looked at as well: it is a fault if and only if it begins with
a length above that of every body. -/
theorem queuedFrames_isGreatest_and_startBuffered
    : (∀ buf : List UInt8,
          IsGreatest {n | ∃ bodies rest, Framed buf bodies rest ∧ bodies.length = n}
              (queuedFrames buf)
            ∧ (∀ n, Counts buf n ↔ n = queuedFrames buf)
            ∧ ∀ more, queuedFrames buf ≤ queuedFrames (buf ++ more))
        ∧ (∀ a b bodies, Framed a bodies [] →
            queuedFrames (a ++ b) = bodies.length + queuedFrames b)
        ∧ ∀ (s : Server F) bodies rest rs left,
            Framed s.inbuf bodies rest → bodies.length = queuedFrames s.inbuf →
              decodeEach bodies s.descriptors = some (rs, left) →
                let free := s.maxParallel - s.inFlight.length
                rs.length = queuedFrames s.inbuf
                  ∧ (rs.length ≤ free →
                      s.startBuffered
                        =
                      ({ s with
                          inbuf := rest
                          descriptors := left
                          inFlight := s.inFlight ++ tasksFrom s.started (fun _ => none) rs
                          started := s.started + rs.length },
                        if rs.length < free then oversized? rest else none)) := by
  refine ⟨?_, ?_, ?_⟩
  . intro buf
    refine ⟨⟨exists_framed buf, ?_⟩, fun n => counts_iff, queuedFrames_le_append buf⟩
    rintro n ⟨bodies, rest, h, rfl⟩
    rw [h.queuedFrames]
    apply Nat.le_add_right
  . intro a b bodies h
    exact (h.append b).queuedFrames
  . intro s bodies rest rs left h hall hdecode free
    have hlast := h.noneWhole hall
    obtain ⟨s', hstarts, rfl, rfl, hcount⟩ := Server.exists_starts h hdecode
    refine ⟨hcount.trans hall, fun hroom => ?_⟩
    calc s.startUpTo free
      _ = s.startUpTo (free - rs.length + rs.length) := by rw [Nat.sub_add_cancel hroom]
      _ = s'.startUpTo (free - rs.length) := Server.startUpTo_of_starts hstarts _
      _ = (s', if rs.length < free then oversized? s'.inbuf else none) := by
        rw [Server.startUpTo_of_noneWhole hlast]
        simp only [Nat.sub_pos_iff_lt]
      _ = _ := by rw [← hstarts.eq]

-- Two requests without arguments, and a length that no frame has.
def twoAndOversized : Server Unit where
  maxParallel := 3
  inbuf := [27, 0, 0, 0] ++ List.replicate 27 0 ++ [27, 0, 0, 0] ++ List.replicate 27 0
    ++ [255, 255, 255, 255, 7]

theorem queuedFrames_isGreatest_and_startBuffered_of_twoAndOversized
    : queuedFrames twoAndOversized.inbuf = 2
        ∧ ∃ s, twoAndOversized.startBuffered = (s, some (.tooLarge 0xffffffff))
            ∧ s.inFlight.length = 2
            ∧ s.inbuf = [255, 255, 255, 255, 7] := by
  have hframed : Framed twoAndOversized.inbuf (List.replicate 2 (List.replicate 27 0))
      [255, 255, 255, 255, 7] :=
    ⟨rfl, by decide⟩
  have hlast : NoneWhole [255, 255, 255, 255, 7] := Frame.noneWhole_of_error rfl
  have hcount : queuedFrames twoAndOversized.inbuf = 2 := by
    rw [hframed.queuedFrames, queuedFrames_eq_zero hlast]
    rfl
  obtain ⟨_, _, hstart⟩ := queuedFrames_isGreatest_and_startBuffered (F := Unit)
  obtain ⟨_, hstarted⟩ := hstart twoAndOversized _ _ _ _ hframed hcount.symm rfl
  exact ⟨hcount, _, hstarted (by decide), rfl, rfl⟩

end Supervisor
end Enclosure
