import Enclosure.Frame.Request
import Enclosure.Proofs.Channel
import Enclosure.Proofs.Request.RoundTrip

/-!
This module contains the reading of a whole stream of requests: the stream is cut into frames one
after the other, and each of them is decoded with the descriptors that come with its own bytes.
-/

namespace Enclosure

open Frame (lengthSize)

namespace Slots

theorem draw_eq (b : Bool) (l : List F) (h : l.length = b.toNat + n)
    : ∃ o l', fill.draw b l = (o, l') ∧ o.toList ++ l' = l ∧ o.isSome = b ∧ l'.length = n := by
  cases b with
  | false =>
    rw [Bool.toNat_false, Nat.zero_add] at h
    exact ⟨none, l, by cases l <;> rfl, rfl, rfl, h⟩
  | true =>
    cases l with
    | nil => simp at h; omega
    | cons a l =>
      rw [List.length_cons, Bool.toNat_true] at h
      exact ⟨some a, l, rfl, rfl, rfl, by omega⟩

theorem fill_eq (mask : Slots Bool) (l : List F) (h : l.length = mask.count)
    : (fill mask l).present = l ∧ (fill mask l).mask = mask := by
  rcases mask with ⟨b0, b1, b2, b3, b4⟩
  have hcount : count ⟨b0, b1, b2, b3, b4⟩
      = b0.toNat + (b1.toNat + (b2.toNat + (b3.toNat + (b4.toNat + 0)))) := by
    cases b0 <;> cases b1 <;> cases b2 <;> cases b3 <;> cases b4 <;> rfl
  rw [hcount] at h
  -- Each slot draws from what the slots before it have left.
  obtain ⟨o0, l0, h0, rfl, rfl, hl0⟩ := draw_eq b0 l h
  obtain ⟨o1, l1, h1, rfl, rfl, hl1⟩ := draw_eq b1 l0 hl0
  obtain ⟨o2, l2, h2, rfl, rfl, hl2⟩ := draw_eq b2 l1 hl1
  obtain ⟨o3, l3, h3, rfl, rfl, hl3⟩ := draw_eq b3 l2 hl2
  obtain ⟨o4, l4, h4, rfl, rfl, hl4⟩ := draw_eq b4 l3 hl3
  rw [List.length_eq_zero_iff.mp hl4] at h0 h1 h2 h3 h4 ⊢
  simp only [fill, h0, h1, h2, h3, h4]
  refine ⟨?_, rfl⟩
  cases o0 <;> cases o1 <;> cases o2 <;> cases o3 <;> cases o4 <;> rfl

end Slots

namespace Request

open Reader

theorem returns_readBody (slots : Slots (Option F))
    : Returns (readBody slots) fun r => r.descriptors = slots := by
  unfold readBody
  repeat refine Returns.bind (fun _ => ?_) _
  exact Returns.pure rfl

-- As many descriptors come with a body as its mask claims. A body without a valid mask claims
-- none.
def Claims (body : List UInt8) (descriptors : List F) : Prop :=
  ∀ bits ∈ body.head?, ∀ mask ∈ Slots.ofBits? bits, descriptors.length = mask.count

theorem decode_append_ok {body : List UInt8} {own : List F} (h : Claims body own)
    (hok : (decode body own).1 = .ok r) (rest : List F)
    : r.descriptors.present = own ∧ decode body (own ++ rest) = (.ok r, rest) := by
  cases body with
  | nil => contradiction
  | cons bits body =>
    have hbits : u8.on (bits :: body) = (.ok bits, body) := reads_u8 bits body
    unfold decode at hok ⊢
    simp only [hbits] at hok ⊢
    cases hmask : Slots.ofBits? bits with
    | none => simp [hmask] at hok
    | some mask =>
      have hlength := h bits rfl mask hmask
      simp only [hmask] at hok ⊢
      rw [if_neg (by omega), List.take_of_length_le (by omega)] at hok
      rw [if_neg (by simp; omega), List.take_left' hlength, List.drop_left' hlength]
      have hslots := returns_readBody _ body r _ (Prod.ext hok rfl)
      rw [hok, hslots, (Slots.fill_eq mask own hlength).1]
      exact ⟨rfl, rfl⟩

theorem decode_append_error {body : List UInt8} {own : List F} (h : Claims body own)
    (herror : (decode body own).1 = .error e) (rest : List F)
    : (decode body (own ++ rest)).1 = .error e := by
  cases body with
  | nil => exact herror
  | cons bits body =>
    have hbits : u8.on (bits :: body) = (.ok bits, body) := reads_u8 bits body
    unfold decode at herror ⊢
    simp only [hbits] at herror ⊢
    cases hmask : Slots.ofBits? bits with
    | none =>
      simp only [hmask] at herror ⊢
      exact herror
    | some mask =>
      have hlength := h bits rfl mask hmask
      simp only [hmask] at herror ⊢
      rw [if_neg (by omega), List.take_of_length_le (by omega)] at herror
      rw [if_neg (by simp; omega), List.take_left' hlength]
      exact herror

end Request

namespace Flow

def IsFrame (f : Flow F) : Prop :=
  Frame.length? f.bytes = .ok (some f.length)

-- The complete frames of a stream, one after the other, up to a length that no frame has.
def frames (s : Flow F) : List (Flow F) × Option FrameError :=
  match Frame.length? s.bytes with
  | .error e => ([], some e)
  | .ok none => ([], none)
  | .ok (some n) =>
    if 0 < n ∧ n ≤ s.length then
      let (fs, last) := frames (s.drop n)
      (s.take n :: fs, last)
    else ([], none)
termination_by s.length
decreasing_by simp; omega

def body (f : Flow F) : List UInt8 :=
  f.bytes.drop lengthSize

def request (f : Flow F) : Except FrameError (Request F) :=
  (Request.decode f.body f.descriptors).1

def decodeFrames (last : Option FrameError) : List (Flow F) → List (Request F) × Option FrameError
  | [] => ([], last)
  | f :: fs =>
    match f.request with
    | .error e => ([], some e)
    | .ok r =>
      let (rs, e) := decodeFrames last fs
      (r :: rs, e)

/-- The requests of a stream up to its first malformed frame, and the error of that frame. -/
def requests (s : Flow F) : List (Request F) × Option FrameError :=
  decodeFrames s.frames.2 s.frames.1

def HasOwnDescriptors (f : Flow F) : Prop :=
  Request.Claims f.body f.descriptors

theorem IsFrame.isWhole {f : Flow F} (h : f.IsFrame) : Frame.IsWhole f.bytes := by
  unfold Frame.IsWhole
  rw [length_bytes, h]

theorem IsFrame.length?_append {f : Flow F} (h : f.IsFrame) (rest : Flow F)
    : Frame.length? (bytes (f ++ rest)) = .ok (some f.length) := by
  rw [bytes_append, h.isWhole.length?_append, length_bytes]

theorem IsFrame.length_pos {f : Flow F} (h : f.IsFrame) : 0 < f.length :=
  length_bytes f ▸ h.isWhole.length_pos

theorem isFrame_take {s : Flow F} (h : Frame.length? s.bytes = .ok (some n)) (hn : n ≤ s.length)
    : IsFrame (s.take n) := by
  unfold IsFrame
  rw [bytes_take, Frame.length?_take _ _ (Frame.lengthSize_le_of_length? h).1, h,
    List.length_take_of_le hn]

theorem frames_of_error {s : Flow F} (h : Frame.length? s.bytes = .error e)
    : frames s = ([], some e) := by
  unfold frames
  rw [h]

theorem frames_nil : frames ([] : Flow F) = ([], none) := by
  unfold frames
  rfl

theorem frames_cons {f : Flow F} (h : f.IsFrame) (rest : Flow F)
    : frames (f ++ rest) = (f :: (frames rest).1, (frames rest).2) := by
  rw [frames]
  simp only [h.length?_append]
  rw [if_pos ⟨h.length_pos, by simp⟩, List.take_left, List.drop_left]

theorem frames_append {fs : List (Flow F)} (h : ∀ f ∈ fs, f.IsFrame) (rest : Flow F)
    : frames (fs.flatten ++ rest) = (fs ++ (frames rest).1, (frames rest).2) := by
  induction fs with
  | nil => rfl
  | cons f fs ih =>
    rw [List.forall_mem_cons] at h
    rw [List.flatten_cons, List.append_assoc, frames_cons h.1, ih h.2]
    rfl

theorem decodeFrames_append {fs : List (Flow F)} {rs : List (Request F)}
    (h : fs.map request = rs.map .ok) (last : Option FrameError) (rest : List (Flow F))
    : decodeFrames last (fs ++ rest)
        =
      (rs ++ (decodeFrames last rest).1, (decodeFrames last rest).2) := by
  induction fs generalizing rs with
  | nil =>
    cases rs with
    | nil => rfl
    | cons r rs => simp at h
  | cons f fs ih =>
    cases rs with
    | nil => simp at h
    | cons r rs =>
      rw [List.map_cons, List.map_cons, List.cons.injEq] at h
      rw [List.cons_append, decodeFrames, h.1, ih h.2]
      rfl

theorem requests_append {fs : List (Flow F)} {rs : List (Request F)} (hframes : ∀ f ∈ fs, f.IsFrame)
    (h : fs.map request = rs.map .ok) (rest : Flow F)
    : requests (fs.flatten ++ rest) = (rs ++ (requests rest).1, (requests rest).2) := by
  unfold requests
  rw [frames_append hframes, decodeFrames_append h]

theorem requests_nil : requests ([] : Flow F) = ([], none) := by
  unfold requests
  rw [frames_nil]
  rfl

theorem requests_of_length_error {s : Flow F} (h : Frame.length? s.bytes = .error e)
    : requests s = ([], some e) := by
  unfold requests
  rw [frames_of_error h]
  rfl

theorem requests_of_request_error {f : Flow F} (hframe : f.IsFrame) (h : f.request = .error e)
    (rest : Flow F)
    : requests (f ++ rest) = ([], some e) := by
  unfold requests
  rw [frames_cons hframe, decodeFrames, h]

structure Carry (fs : List (Flow F)) (rs : List (Request F)) : Prop where
  frames : ∀ f ∈ fs, f.IsFrame
  requests : fs.map request = rs.map .ok
  descriptors : fs.map descriptors = rs.map fun r => r.descriptors.present

theorem Carry.nil : Carry ([] : List (Flow F)) [] :=
  ⟨by simp, rfl, rfl⟩

theorem Carry.append {fs fs' : List (Flow F)} {rs rs' : List (Request F)} (h : Carry fs rs)
    (h' : Carry fs' rs')
    : Carry (fs ++ fs') (rs ++ rs') where
  frames := List.forall_mem_append.mpr ⟨h.frames, h'.frames⟩
  requests := by rw [List.map_append, List.map_append, h.requests, h'.requests]
  descriptors := by rw [List.map_append, List.map_append, h.descriptors, h'.descriptors]

theorem Carry.exists_frame {fs : List (Flow F)} {rs : List (Request F)} {i : Nat} {r : Request F}
    (h : Carry fs rs) (hi : rs[i]? = some r)
    : ∃ f, fs[i]? = some f ∧ f.request = .ok r ∧ r.descriptors.present = f.descriptors := by
  have hrequest := congrArg (fun l => l[i]?) h.requests
  have hdescriptors := congrArg (fun l => l[i]?) h.descriptors
  simp only [List.getElem?_map, hi, Option.map_some, Option.map_eq_some_iff]
    at hrequest hdescriptors
  obtain ⟨f, hf, hrequest⟩ := hrequest
  obtain ⟨f', hf', hdescriptors⟩ := hdescriptors
  rw [hf, Option.some.injEq] at hf'
  refine ⟨f, hf, hrequest, ?_⟩
  rw [hf', hdescriptors]

end Flow

namespace Request

def flow (r : Request F) : Flow F :=
  Flow.ofSegment ⟨Frame.ofBody r.body, r.descriptors.present⟩

theorem bytes_flow (r : Request F) : r.flow.bytes = Frame.ofBody r.body :=
  Flow.bytes_ofSegment _

theorem body_flow (r : Request F) : r.flow.body = r.body := by
  unfold Flow.body
  rw [bytes_flow, Frame.drop_ofBody]

theorem descriptors_flow (r : Request F) : r.flow.descriptors = r.descriptors.present := by
  apply Flow.descriptors_ofSegment
  apply List.ne_nil_of_length_pos
  rw [Frame.length_ofBody]
  exact Nat.lt_of_lt_of_le (by decide) (Nat.le_add_right _ _)

theorem carry_flow (r : Request F) (h : r.LengthsFit) (hsize : r.body.length ≤ Frame.maxBody)
    : Flow.Carry [r.flow] [r] := by
  constructor
  case frames =>
    rw [List.forall_mem_singleton]
    unfold Flow.IsFrame
    have := Frame.length?_ofBody r.body [] hsize
    rw [List.append_nil] at this
    rw [← Flow.length_bytes, bytes_flow, this]
  case requests =>
    have := r.decode_body h []
    rw [List.append_nil] at this
    rw [List.map_singleton, List.map_singleton, Flow.request, body_flow, descriptors_flow, this]
  case descriptors => rw [List.map_singleton, List.map_singleton, descriptors_flow]

theorem hasOwnDescriptors_flow (r : Request F) : r.flow.HasOwnDescriptors := by
  unfold Flow.HasOwnDescriptors Claims
  rw [body_flow, descriptors_flow, body_eq]
  intro bits hbits mask hmask
  cases hbits
  rw [Slots.ofBits?_bits] at hmask
  cases hmask
  exact (Slots.count_mask r.descriptors).symm

theorem carry_map_flow {rs : List (Request F)}
    (h : ∀ r ∈ rs, r.LengthsFit ∧ r.body.length ≤ Frame.maxBody)
    : Flow.Carry (rs.map flow) rs := by
  induction rs with
  | nil => exact .nil
  | cons r rs ih =>
    rw [List.forall_mem_cons] at h
    exact (r.carry_flow h.1.1 h.1.2).append (ih h.2)

end Request
end Enclosure
