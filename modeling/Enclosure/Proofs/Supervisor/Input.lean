import Enclosure.Proofs.Request.Stream
import Enclosure.Proofs.Supervisor.Run

/-!
This module contains the invariant of what a supervisor reads: the requests that it starts are those
of the frames at the front of its stream, and what it has buffered is the stream behind them.
-/

namespace Enclosure.Supervisor

namespace Server

structure Holds (s : Server F) (b : Flow F) : Prop where
  bytes : s.inbuf = b.bytes
  descriptors : s.descriptors = b.descriptors

variable {s s' : Server F} {b rest : Flow F}

theorem Holds.frontBody (h : s.Holds b) (size : Nat)
    : s.frontBody size = Flow.body (b.take size) := by
  unfold Server.frontBody Flow.body
  rw [h.bytes, Flow.bytes_take]

theorem Holds.descriptors_split (h : s.Holds b) (size : Nat)
    : s.descriptors = Flow.descriptors (b.take size) ++ Flow.descriptors (b.drop size) := by
  rw [h.descriptors, ← Flow.descriptors_append, List.take_append_drop]

theorem Holds.front (h : s.Holds b) (hlength : Frame.length? s.inbuf = .ok (some size))
    (hsize : size ≤ s.inbuf.length) (rest : Flow F)
    : Flow.IsFrame (b.take size) ∧ b.take size ++ (b.drop size ++ rest) = b ++ rest := by
  rw [h.bytes] at hlength hsize
  rw [Flow.length_bytes] at hsize
  refine ⟨Flow.isFrame_take hlength hsize, ?_⟩
  rw [← List.append_assoc, List.take_append_drop]

theorem Starts.exists_frames (h : Starts s rs s') (hb : s.Holds b)
    (hown : ∀ f ∈ (Flow.frames (b ++ rest)).1, f.HasOwnDescriptors)
    : ∃ fs b', b = fs.flatten ++ b' ∧ Flow.Carry fs rs ∧ s'.Holds b' := by
  induction h generalizing b with
  | nil s => exact ⟨[], b, rfl, .nil, hb⟩
  | @cons size left r rs s s' hlength hsize hdecode hrest ih =>
    obtain ⟨hframe, hsplit⟩ := hb.front hlength hsize rest
    rw [← hsplit, Flow.frames_cons hframe, List.forall_mem_cons] at hown
    obtain ⟨hown, hnext⟩ := hown
    -- The first frame takes its own descriptors, so those of the frames behind it stay.
    rw [hb.frontBody, hb.descriptors_split size] at hdecode
    cases hrequest : Flow.request (b.take size) with
    | error e =>
      have := Request.decode_append_error hown hrequest (Flow.descriptors (b.drop size))
      rw [hdecode] at this
      contradiction
    | ok r' =>
      obtain ⟨hslots, hok⟩ :=
        Request.decode_append_ok hown hrequest (Flow.descriptors (b.drop size))
      rw [hdecode, Prod.mk.injEq, Except.ok.injEq] at hok
      obtain ⟨rfl, rfl⟩ := hok
      have hnextHolds : (s.next size r (Flow.descriptors (b.drop size))).Holds (b.drop size) := by
        refine ⟨?_, rfl⟩
        change s.inbuf.drop size = _
        rw [hb.bytes, Flow.bytes_drop]
      obtain ⟨fs, b', heq, hcarry, hholds⟩ := ih hnextHolds hnext
      refine ⟨b.take size :: fs, b', ?_, ?_, hholds⟩
      . rw [List.flatten_cons, List.append_assoc, ← heq, List.take_append_drop]
      . have hfront : Flow.Carry [b.take size] [r] :=
          ⟨by simpa using hframe, by simpa using hrequest, by simpa using hslots.symm⟩
        exact hfront.append hcarry

theorem Malformed.requests_eq (h : s.Malformed e) (hb : s.Holds b)
    (hown : ∀ f ∈ (Flow.frames (b ++ rest)).1, f.HasOwnDescriptors)
    : Flow.requests (b ++ rest) = ([], some e) := by
  obtain hlength | ⟨size, hlength, hsize, hdecode⟩ := h
  . apply Flow.requests_of_length_error
    rw [hb.bytes] at hlength
    rw [Flow.bytes_append, Frame.length?_append, hlength]
    apply Nat.le_of_not_lt
    intro hshort
    rw [Frame.length?_of_short hshort] at hlength
    contradiction
  . obtain ⟨hframe, hsplit⟩ := hb.front hlength hsize rest
    rw [← hsplit] at hown ⊢
    apply Flow.requests_of_request_error hframe
    rw [Flow.frames_cons hframe, List.forall_mem_cons] at hown
    rw [hb.frontBody, hb.descriptors_split size] at hdecode
    cases hrequest : Flow.request (b.take size) with
    | error e' =>
      have := Request.decode_append_error hown.1 hrequest (Flow.descriptors (b.drop size))
      rw [hdecode] at this
      exact this.symm
    | ok r =>
      have := (Request.decode_append_ok hown.1 hrequest (Flow.descriptors (b.drop size))).2
      rw [this] at hdecode
      contradiction

end Server

namespace Loop

open Flow (ofSegments)

/-- The way from the arrived stream to the started requests. Those requests are the ones of the
frames `fs`; behind these come what is buffered and then what is still in the channel. -/
structure Inputs (es : List (Event F)) (rs : List (Request F)) (fs : List (Flow F)) (l : Loop F)
    : Prop where
  carry : Flow.Carry fs rs
  arrived : fs.flatten <+: ofSegments (arrivals es)
  buffered : l.isEnded = false → ∃ b,
    l.server.Holds b
      ∧ fs.flatten ++ (b ++ ofSegments l.socket.incoming.segments) = ofSegments (arrivals es)
      ∧ ∀ s ∈ l.socket.incoming.segments, s.bytes ≠ []

structure SameInput (l l' : Loop F) : Prop where
  inbuf : l'.server.inbuf = l.server.inbuf
  descriptors : l'.server.descriptors = l.server.descriptors
  segments : l'.socket.incoming.segments = l.socket.incoming.segments

namespace Inputs

variable {es : List (Event F)} {rs : List (Request F)} {fs : List (Flow F)} {l : Loop F}

theorem new (maxParallel : Nat) : Inputs [] [] [] (Loop.new maxParallel : Loop F) where
  carry := .nil
  arrived := List.nil_prefix
  buffered := fun _ => ⟨[], ⟨rfl, rfl⟩, rfl, by simp [Loop.new]⟩

theorem ended (h : Inputs es rs fs l) {l' : Loop F} (hended : l'.isEnded = true)
    : Inputs es rs fs l' where
  carry := h.carry
  arrived := h.arrived
  buffered := fun hlive => by
    rw [hended] at hlive
    contradiction

theorem same (h : Inputs es rs fs l) {l' : Loop F} (hsame : SameInput l l')
    (hlive : l'.isEnded = false → l.isEnded = false)
    : Inputs es rs fs l' where
  carry := h.carry
  arrived := h.arrived
  buffered := by
    intro hlive'
    obtain ⟨b, hb, heq, hsegments⟩ := h.buffered (hlive hlive')
    refine ⟨b, ⟨hsame.inbuf.trans hb.bytes, hsame.descriptors.trans hb.descriptors⟩, ?_, ?_⟩
    . rw [hsame.segments, heq]
    . rw [hsame.segments]
      exact hsegments

theorem concat (h : Inputs es rs fs l) {e : Event F} (he : arrivals [e] = [])
    : Inputs (es ++ [e]) rs fs l := by
  have harrivals : arrivals (es ++ [e]) = arrivals es := by
    rw [arrivals_append, he, List.append_nil]
  exact {
    carry := h.carry
    arrived := harrivals ▸ h.arrived
    buffered := harrivals ▸ h.buffered }

theorem arrive (h : Inputs es rs fs l) {segment : Segment F} (hne : segment.bytes ≠ [])
    : Inputs (es ++ [.arrival segment]) rs fs (l.arrive segment) := by
  have harrivals : ofSegments (arrivals (es ++ [.arrival segment]))
      = ofSegments (arrivals es) ++ ofSegments [segment] := by
    rw [arrivals_append]
    exact List.flatMap_append
  constructor
  case carry => exact h.carry
  case arrived =>
    rw [harrivals]
    exact h.arrived.trans (List.prefix_append _ _)
  case buffered =>
    intro hlive
    obtain ⟨b, hb, heq, hsegments⟩ := h.buffered hlive
    refine ⟨b, hb, ?_, ?_⟩
    . rw [harrivals, ← heq]
      simp [Loop.arrive, ofSegments]
    . simp only [Loop.arrive, List.forall_mem_append, List.forall_mem_singleton]
      exact ⟨hsegments, hne⟩

theorem read (h : Inputs es rs fs l) (hlive : l.isEnded = false) {answer : Answer}
    (ha : answer.isSome = true) (onNothing : Phase)
    : Inputs es rs fs (l.read answer onNothing) := by
  obtain hread | ⟨segments, fault, hread⟩ | ⟨_, hread⟩
    | ⟨n, bytes, descriptors, segments, hn, htake, hread⟩ := l.read_cases ha onNothing
  . rw [hread]
    exact h.ended rfl
  . rw [hread]
    exact h.ended rfl
  . rw [hread]
    exact h.same ⟨rfl, rfl, rfl⟩ fun _ => hlive
  . rw [hread]
    refine { h with buffered := fun _ => ?_ }
    obtain ⟨b, hb, heq, hsegments⟩ := h.buffered hlive
    obtain ⟨taken, hsplit, rfl, rfl, hrest⟩ := Channel.takeFrom_eq hn.1 hsegments htake
    refine ⟨b ++ taken, ⟨?_, ?_⟩, ?_, hrest⟩
    . rw [Flow.bytes_append, ← hb.bytes]
      rfl
    . rw [Flow.descriptors_append, ← hb.descriptors]
      rfl
    . rw [← heq, hsplit, List.append_assoc]

variable {stream : Flow F}

theorem start (h : Inputs es rs fs l) (hlive : l.isEnded = false)
    (hstream : ofSegments (arrivals es) <+: stream)
    (hown : ∀ f ∈ stream.frames.1, f.HasOwnDescriptors) (hstarts : l.server.Starts rs' s)
    : ∃ fs', Inputs es (rs ++ rs') (fs ++ fs') { l with server := s } := by
  obtain ⟨b, hb, heq, hsegments⟩ := h.buffered hlive
  obtain ⟨future, rfl⟩ := hstream
  -- The frames of the whole stream are the consumed ones and those from the buffers on.
  rw [← heq, List.append_assoc, List.append_assoc, Flow.frames_append h.carry.frames,
    List.forall_mem_append] at hown
  obtain ⟨fs', b', rfl, hcarry, hb'⟩ := hstarts.exists_frames hb hown.2
  have heq' : (fs ++ fs').flatten ++ (b' ++ ofSegments l.socket.incoming.segments)
      = ofSegments (arrivals es) := by
    rw [← heq, List.flatten_append, List.append_assoc, List.append_assoc]
  refine ⟨fs', h.carry.append hcarry, ?_, fun _ => ⟨b', hb', heq', hsegments⟩⟩
  rw [← heq']
  apply List.prefix_append

theorem malformed (h : Inputs es rs fs l) (hlive : l.isEnded = false)
    (hstream : ofSegments (arrivals es) <+: stream)
    (hown : ∀ f ∈ stream.frames.1, f.HasOwnDescriptors) (he : l.server.Malformed e)
    : stream.requests = (rs, some e) := by
  obtain ⟨b, hb, heq, _⟩ := h.buffered hlive
  obtain ⟨future, rfl⟩ := hstream
  rw [← heq, List.append_assoc, List.append_assoc] at hown ⊢
  rw [Flow.frames_append h.carry.frames, List.forall_mem_append] at hown
  rw [Flow.requests_append h.carry.frames h.carry.requests, he.requests_eq hb hown.2,
    List.append_nil]

theorem turn (h : Inputs es rs fs l) (hlive : l.isEnded = false)
    (hstream : ofSegments (arrivals es) <+: stream)
    (hown : ∀ f ∈ stream.frames.1, f.HasOwnDescriptors) {answer : Answer}
    (ha : answer.isSome = true)
    : ∃ fs, Inputs es (rs ++ l.startedBy (l.turn answer)) fs (l.turn answer) := by
  obtain ⟨rs', s, hstarts, hstarted, _, hres⟩ := l.turn_cases ha
  obtain ⟨fs', hstart⟩ := h.start hlive hstream hown hstarts
  rw [hstarted]
  refine ⟨fs ++ fs', ?_⟩
  obtain ⟨e, descriptors, _, _, hturn⟩ | ⟨_, _, unreadInput, hturn | ⟨_, _, hturn⟩⟩ := hres
  . rw [hturn]
    exact hstart.ended rfl
  . rw [hturn]
    exact hstart.same ⟨rfl, rfl, rfl⟩ fun _ => hlive
  . rw [hturn]
    have : Inputs es (rs ++ rs') (fs ++ fs') { l with server := { s with unreadInput } } :=
      hstart.same ⟨rfl, rfl, rfl⟩ fun _ => hlive
    exact this.read hlive ha .waiting

end Inputs

theorem step_inputs {es : List (Event F)} {rs : List (Request F)} {l l' : Loop F} {e : Event F}
    {stream : Flow F} (hown : ∀ f ∈ stream.frames.1, f.HasOwnDescriptors)
    (hstream : ofSegments (arrivals es) <+: stream) (h : ∃ fs, Inputs es rs fs l)
    (hstep : l.step e = some l')
    : ∃ fs, Inputs (es ++ [e]) (rs ++ l.startedBy l') fs l' := by
  obtain ⟨fs, h⟩ := h
  have hnil := startedBy_eq_nil_of_step hstep
  obtain ⟨henabled, rfl⟩ := step_eq_some_iff.mp hstep
  cases e with
  | turn answer =>
    simp only [enabled, Bool.and_eq_true] at henabled
    obtain ⟨fs', hturn⟩ := h.turn (isEnded_of_isTop henabled.1) hstream hown henabled.2
    exact ⟨fs', hturn.concat rfl⟩
  | arrival segment =>
    simp [enabled] at henabled
    rw [hnil (by simp), List.append_nil]
    exact ⟨fs, h.arrive henabled.2⟩
  | readable answer =>
    simp only [enabled, Bool.and_eq_true] at henabled
    rw [hnil (by simp), List.append_nil]
    have hlive := isEnded_of_isWaiting henabled.1.1.1
    exact ⟨fs, (h.read hlive henabled.2 .top).concat rfl⟩
  | noticePaused =>
    simp only [enabled, Bool.and_eq_true] at henabled
    have hlive := isEnded_of_isWaiting henabled.1.1
    rw [hnil (by simp), List.append_nil]
    refine ⟨fs, Inputs.concat ?_ rfl⟩
    change Inputs es rs fs l.noticePaused
    unfold noticePaused
    split
    . exact h.ended rfl
    . exact h.same ⟨rfl, rfl, rfl⟩ fun _ => hlive
  | writable answer =>
    simp only [enabled, Bool.and_eq_true] at henabled
    have hlive := isEnded_of_isWaiting henabled.1
    rw [hnil (by simp), List.append_nil]
    refine ⟨fs, Inputs.concat ?_ rfl⟩
    cases answer with
    | error fault => exact h.ended rfl
    | ok n => exact h.same ⟨rfl, rfl, rfl⟩ fun _ => hlive
  | respond =>
    simp only [enabled, Bool.and_eq_true] at henabled
    have hlive := isEnded_of_isWaiting henabled.1
    rw [hnil (by simp), List.append_nil]
    refine ⟨fs, Inputs.concat ?_ rfl⟩
    change Inputs es rs fs l.respond
    obtain hnone | ⟨_, _, _, _, _, ⟨_, _, hrespond⟩ | ⟨_, _, hrespond⟩⟩ := l.respond_cases
    . rw [hnone]
      exact h
    . rw [hrespond]
      exact h.ended rfl
    . rw [hrespond]
      exact h.same ⟨rfl, rfl, rfl⟩ fun _ => hlive
  | close | verdict =>
    rw [hnil (by simp), List.append_nil]
    refine ⟨fs, Inputs.concat ?_ rfl⟩
    exact h.same ⟨rfl, rfl, rfl⟩ id

theorem run_inputs (maxParallel : Nat) {es : List (Event F)} {l : Loop F} {stream : Flow F}
    (hrun : (new maxParallel).run es = some l)
    (hown : ∀ f ∈ stream.frames.1, f.HasOwnDescriptors)
    (hstream : ofSegments (arrivals es) <+: stream)
    : ∃ fs, Inputs es ((new maxParallel).started es) fs l := by
  refine run_induction (P := fun es rs l =>
    ofSegments (arrivals es) <+: stream → ∃ fs, Inputs es rs fs l) ?_ ?_ hrun hstream
  . intro _
    exact ⟨[], .new maxParallel⟩
  . intro es rs l e l' ih hstep hstream
    have hpast : ofSegments (arrivals es) <+: stream := by
      rw [arrivals_append] at hstream
      refine List.IsPrefix.trans ?_ hstream
      unfold ofSegments
      rw [List.flatMap_append]
      apply List.prefix_append
    exact step_inputs hown hpast (ih hpast) hstep

theorem Inputs.requests_eq {es : List (Event F)} {rs : List (Request F)} {fs : List (Flow F)}
    {l : Loop F} {stream : Flow F} (h : Inputs es rs fs l)
    (hstream : ofSegments (arrivals es) <+: stream)
    : ∃ rest : Flow F,
        stream.frames.1 = fs ++ rest.frames.1 ∧ stream.requests.1 = rs ++ rest.requests.1 := by
  obtain ⟨rest, rfl⟩ := h.arrived.trans hstream
  refine ⟨rest, ?_, ?_⟩
  . rw [Flow.frames_append h.carry.frames]
  . rw [Flow.requests_append h.carry.frames h.carry.requests]

/-- Whatever the receives and the turns of a run are, the requests that it starts are the first ones
of the stream, each with the descriptors of its own frame. Nothing is started from the first
malformed frame on, and starting fails only at that frame, once all frames in front of it have been
started. -/
theorem started_prefix_requests (maxParallel : Nat) (es : List (Event F)) (l : Loop F)
    (stream : Flow F) (hrun : (new maxParallel).run es = some l)
    (hown : ∀ f ∈ stream.frames.1, f.HasOwnDescriptors)
    (hstream : ofSegments (arrivals es) <+: stream)
    : (new maxParallel).started es <+: stream.requests.1
        ∧ (∀ (i : Nat) (r : Request F), ((new maxParallel).started es)[i]? = some r →
            ∃ f,
              stream.frames.1[i]? = some f
                ∧ f.request = .ok r
                ∧ r.descriptors.present = f.descriptors)
        ∧ (∀ (i : Nat) (f : Flow F) (e : FrameError), stream.frames.1[i]? = some f →
            f.request = .error e →
            ((new maxParallel).started es).length ≤ i)
        ∧ ∀ answer e, l.enabled (.turn answer) = true → l.server.startBuffered.2 = some e →
            stream.requests = ((new maxParallel).started (es ++ [.turn answer]), some e) := by
  obtain ⟨fs, h⟩ := run_inputs maxParallel hrun hown hstream
  obtain ⟨rest, hframes, hrequests⟩ := h.requests_eq hstream
  have hfront (i : Nat) (r : Request F) (hi : ((new maxParallel).started es)[i]? = some r)
      : ∃ f,
          stream.frames.1[i]? = some f
            ∧ f.request = .ok r
            ∧ r.descriptors.present = f.descriptors := by
    obtain ⟨f, hf, hrequest⟩ := h.carry.exists_frame hi
    refine ⟨f, ?_, hrequest⟩
    rw [hframes, List.getElem?_append_left (List.getElem?_eq_some_iff.mp hf).1, hf]
  refine ⟨?_, hfront, ?_, ?_⟩
  . rw [hrequests]
    apply List.prefix_append
  . intro i f e hf he
    apply Nat.le_of_not_lt
    intro hi
    obtain ⟨f', hf', hrequest, _⟩ := hfront i _ (List.getElem?_eq_getElem hi)
    rw [hf, Option.some.injEq] at hf'
    rw [← hf', he] at hrequest
    contradiction
  . intro answer e henabled he
    have hstep := step_eq_some_iff.mpr ⟨henabled, rfl⟩
    rw [started_append hrun, started_cons hstep, started, List.append_nil]
    simp only [enabled, Bool.and_eq_true] at henabled
    obtain ⟨hlive, ha⟩ := henabled
    have hlive := isEnded_of_isTop hlive
    obtain ⟨rs, s, hstarts, hstarted, _, ⟨e', _, he', hmalformed, _⟩ | ⟨hnone, _⟩⟩ :=
      l.turn_cases ha
    . rw [he, Option.some.injEq] at he'
      obtain ⟨fs', hstart⟩ := h.start hlive hstream hown hstarts
      change stream.requests = (_ ++ l.startedBy (l.turn answer), some e)
      rw [hstarted, he']
      exact hstart.malformed hlive hstream hown hmalformed
    . rw [he] at hnone
      contradiction

-- A frame that a descriptor comes with, and a frame without a body.
def twoFrames : List (Segment Nat) :=
  [⟨[27, 0, 0, 0, 1] ++ List.replicate 26 0, [7]⟩, ⟨[0, 0, 0, 0], []⟩]

def inPieces : List (Event Nat) :=
  twoFrames.map .arrival ++ (List.replicate 4 [.turn (.ok 1), .readable (.ok 10)]).flatten

theorem started_prefix_requests_of_inPieces
    : ∃ l : Loop Nat,
        (new 2).run inPieces = some l
          ∧ (new 2).started inPieces <+: (ofSegments twoFrames).requests.1
          ∧ l.server.startBuffered.2 = some .truncated
          ∧ ((ofSegments twoFrames).requests.1.map fun r => r.descriptors.present) = [[7]]
          ∧ (ofSegments twoFrames).requests.2 = some .truncated := by
  have hframes : (ofSegments twoFrames).frames.1 = twoFrames.map Flow.ofSegment := by
    have hwhole : ∀ f ∈ twoFrames.map Flow.ofSegment, f.IsFrame := by
      unfold twoFrames
      rw [List.map_cons, List.forall_mem_cons, List.map_singleton, List.forall_mem_singleton]
      exact ⟨rfl, rfl⟩
    have := Flow.frames_append hwhole []
    rw [Flow.frames_nil] at this
    exact congrArg Prod.fst this
  have hown : ∀ f ∈ (ofSegments twoFrames).frames.1, f.HasOwnDescriptors := by
    rw [hframes]
    unfold twoFrames
    rw [List.map_cons, List.forall_mem_cons, List.map_singleton, List.forall_mem_singleton]
    constructor
    . intro bits hbits mask hmask
      cases hbits
      cases hmask
      rfl
    . intro bits hbits
      contradiction
  obtain ⟨hfront, _, _, hfails⟩ :=
    started_prefix_requests 2 inPieces _ (ofSegments twoFrames) rfl hown List.prefix_rfl
  have hrequests := hfails (.ok 1) .truncated rfl rfl
  refine ⟨_, rfl, hfront, rfl, ?_, ?_⟩
  . rw [hrequests]
    rfl
  . rw [hrequests]

end Loop
end Enclosure.Supervisor
