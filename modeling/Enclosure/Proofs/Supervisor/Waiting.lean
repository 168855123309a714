import Enclosure.Proofs.Request.Refusal
import Enclosure.Proofs.Supervisor.Backlog
import Enclosure.Proofs.Supervisor.Input

/-!
This module contains which requests wait in the buffers of a supervisor, and how many. Reading
pauses when enough frames wait, but the receive before that may have brought many of them at once,
so that only the frames in front of one receive are bounded by the number that reading pauses for.
-/

namespace Enclosure

open Frame (IsWhole NoneWhole lengthSize)

theorem Frame.noneWhole_nil : NoneWhole [] := by
  intro size h
  cases h

theorem Frame.noneWhole_of_prefix {f part : List UInt8} (hf : IsWhole f) (h : part <+: f)
    (hlt : part.length < f.length)
    : NoneWhole part := by
  intro size hlength
  obtain ⟨rest, rfl⟩ := h
  have hwhole := length?_append part rest (lengthSize_le_of_length? hlength).2
  rw [hf, hlength, Except.ok.injEq, Option.some.injEq] at hwhole
  omega

theorem length_mul_le_length_flatten {fs : List (List α)} (h : ∀ f ∈ fs, m ≤ f.length)
    : fs.length * m ≤ fs.flatten.length := by
  induction fs with
  | nil => exact Nat.le_of_eq (Nat.zero_mul m)
  | cons f fs ih =>
    rw [List.forall_mem_cons] at h
    have := ih h.2
    rw [List.length_cons, List.flatten_cons, List.length_append, Nat.succ_mul]
    omega

theorem exists_take_of_prefix_flatten {fs : List (List α)} {front : List α}
    (h : front <+: fs.flatten)
    : ∃ n part,
        front = (fs.take n).flatten ++ part
          ∧ (part = [] ∨ ∃ f, fs[n]? = some f ∧ part <+: f ∧ part.length < f.length) := by
  induction fs generalizing front with
  | nil => exact ⟨0, [], List.prefix_nil.mp h, .inl rfl⟩
  | cons f fs ih =>
    rw [List.flatten_cons] at h
    by_cases hlength : f.length ≤ front.length
    . obtain ⟨front, rfl⟩ := List.prefix_of_prefix_length_le (List.prefix_append f _) h hlength
      rw [List.prefix_append_right_inj] at h
      obtain ⟨n, part, rfl, hpart⟩ := ih h
      exact ⟨n + 1, part, by simp, hpart⟩
    . have hlt : front.length < f.length := Nat.lt_of_not_le hlength
      have hfront := List.prefix_of_prefix_length_le h (List.prefix_append f _) (Nat.le_of_lt hlt)
      exact ⟨0, front, rfl, .inr ⟨f, rfl, hfront, hlt⟩⟩

namespace Flow

theorem bytes_flatten (fs : List (Flow F)) : bytes fs.flatten = (fs.map bytes).flatten :=
  List.map_flatten

end Flow

namespace Request

def leastFrame : Nat := 31

theorem leastFrame_le_length (r : Request F) : leastFrame ≤ r.flow.bytes.length := by
  have hhead : 9 ≤ Item.totalSize Item.size r.headItems := by
    simp only [headItems, Item.totalSize, Item.size, List.foldr]
    omega
  have hmiddle := r.size_middleItems_le
  have htail : 3 ≤ Item.totalSize Item.size r.tailItems := by
    refine Nat.le_trans ?_ (Item.length_le_totalSize Item.size _ fun i _ => i.size_pos)
    simp [tailItems]
  rw [bytes_flow, Frame.length_ofBody, length_body_eq]
  unfold leastFrame lengthSize
  omega

theorem descriptors_flatten_map_flow (rs : List (Request F))
    : Flow.descriptors (rs.map flow).flatten = rs.flatMap fun r => r.descriptors.present := by
  induction rs with
  | nil => rfl
  | cons r rs ih =>
    rw [List.map_cons, List.flatten_cons, Flow.descriptors_append, ih, descriptors_flow,
      List.flatMap_cons]

def Encodes (r : Request F) : Prop :=
  r.encode = .ok (r.flow.bytes, r.flow.descriptors)

theorem encodes_iff (r : Request F) : r.Encodes ↔ ∃ frame, r.encode = .ok frame := by
  constructor
  . exact fun h => ⟨_, h⟩
  . rintro ⟨frame, hframe⟩
    obtain ⟨n, herror⟩ | ⟨hlengths, hsize⟩ := r.encode_tooLarge_or_fits
    . rw [herror] at hframe
      contradiction
    . unfold Encodes
      rw [bytes_flow, descriptors_flow]
      exact r.encode_eq_ok hlengths hsize

theorem carry_of_encodes {rs : List (Request F)} (h : ∀ r ∈ rs, r.Encodes)
    : Flow.Carry (rs.map flow) rs := by
  apply carry_map_flow
  intro r hr
  apply r.encode_tooLarge_or_fits.resolve_left
  rintro ⟨n, herror⟩
  have hencodes : r.encode = _ := h r hr
  rw [herror] at hencodes
  contradiction

end Request

theorem Flow.Carry.frames_eq {fs : List (Flow F)} {rs : List (Request F)} (h : Carry fs rs)
    : (Flow.frames fs.flatten).1 = fs ∧ (Flow.requests fs.flatten).1 = rs := by
  have hframes := frames_append h.frames []
  have hrequests := requests_append h.frames h.requests []
  rw [List.append_nil] at hframes hrequests
  rw [hframes, hrequests, frames_nil, requests_nil]
  exact ⟨List.append_nil fs, List.append_nil rs⟩

namespace Supervisor

def OneReceive (buf : List UInt8) : Prop :=
  ∃ before chunk,
    buf = before ++ chunk ∧ queuedFrames before < maxQueuedFrames ∧ chunk.length ≤ readChunk

variable {buf before rest : List UInt8} {fs : List (List UInt8)}

theorem OneReceive.drop (h : OneReceive buf) (hlength : Frame.length? buf = .ok (some size))
    : OneReceive (buf.drop size) := by
  obtain ⟨before, chunk, rfl, hqueued, hchunk⟩ := h
  by_cases hsize : size ≤ before.length
  . refine ⟨before.drop size, chunk, List.drop_append_of_le_length hsize, ?_, hchunk⟩
    have hle := Nat.le_trans (Frame.lengthSize_le_of_length? hlength).1 hsize
    rw [Frame.length?_append _ _ hle] at hlength
    have := queuedFrames_of_length? hlength hsize
    omega
  . refine ⟨[], chunk.drop (size - before.length), ?_, ?_, ?_⟩
    . rw [List.drop_append, List.drop_of_length_le (Nat.le_of_not_le hsize)]
    . rw [queuedFrames_eq_zero Frame.noneWhole_nil]
      decide
    . rw [List.length_drop]
      omega

theorem buffered_oneReceive : Buffered OneReceive where
  nil := ⟨[], [], rfl, by rw [queuedFrames_eq_zero Frame.noneWhole_nil]; decide, Nat.zero_le _⟩
  drop := OneReceive.drop
  append hqueued hbytes := ⟨_, _, rfl, hqueued, hbytes⟩

theorem length_lt_of_queuedFrames_lt (hwhole : ∀ f ∈ fs, IsWhole f)
    (hcut : before <+: fs.flatten ++ rest) (hqueued : queuedFrames before < fs.length)
    : before.length < fs.flatten.length := by
  apply Nat.lt_of_not_le
  intro hle
  obtain ⟨part, rfl⟩ := List.prefix_of_prefix_length_le (List.prefix_append ..) hcut hle
  rw [queuedFrames_flatten_append hwhole] at hqueued
  omega

theorem OneReceive.mul_lt_readChunk (h : OneReceive (fs.flatten ++ rest))
    (hwhole : ∀ f ∈ fs, IsWhole f) (hsize : ∀ f ∈ fs, m ≤ f.length)
    : (fs.length - maxQueuedFrames) * m < readChunk := by
  by_cases hlength : fs.length ≤ maxQueuedFrames
  . rw [Nat.sub_eq_zero_of_le hlength, Nat.zero_mul]
    decide
  . obtain ⟨before, chunk, heq, hqueued, hchunk⟩ := h
    have hsplit : fs.flatten
        = (fs.take maxQueuedFrames).flatten ++ (fs.drop maxQueuedFrames).flatten := by
      rw [← List.flatten_append, List.take_append_drop]
    have htake : (fs.take maxQueuedFrames).length = maxQueuedFrames :=
      List.length_take_of_le (Nat.le_of_not_le hlength)
    have hbefore : before.length < (fs.take maxQueuedFrames).flatten.length := by
      apply length_lt_of_queuedFrames_lt
      . exact fun f hf => hwhole f (List.mem_of_mem_take hf)
      . rw [← List.append_assoc, ← hsplit, heq]
        exact List.prefix_append ..
      . rw [htake]
        exact hqueued
    have hdrop : (fs.drop maxQueuedFrames).length * m ≤ (fs.drop maxQueuedFrames).flatten.length :=
      length_mul_le_length_flatten fun f hf => hsize f (List.mem_of_mem_drop hf)
    rw [List.length_drop] at hdrop
    have hlengths := congrArg List.length heq
    rw [hsplit] at hlengths
    simp only [List.length_append] at hlengths
    omega

namespace Loop

open Flow (ofSegments)

variable {es : List (Event F)} {rs : List (Request F)} {l : Loop F}

theorem exists_later (hrs : ∀ r ∈ rs, r.Encodes) {maxParallel : Nat}
    (hrun : (new maxParallel).run es = some l)
    (hstream : ofSegments (arrivals es) <+: (rs.map Request.flow).flatten)
    (hlive : l.isEnded = false)
    : ∃ later b,
        rs = (new maxParallel).started es ++ later
          ∧ l.server.Holds b
          ∧ b <+: (later.map Request.flow).flatten := by
  obtain ⟨hframes, hrequests⟩ := (Request.carry_of_encodes hrs).frames_eq
  have hown : ∀ f ∈ (Flow.frames (rs.map Request.flow).flatten).1, f.HasOwnDescriptors := by
    rw [hframes, List.forall_mem_map]
    exact fun r _ => r.hasOwnDescriptors_flow
  obtain ⟨fs, h⟩ := run_inputs maxParallel hrun hown hstream
  obtain ⟨rest, hsplit, hlater⟩ := h.requests_eq hstream
  obtain ⟨b, hb, heq, _⟩ := h.buffered hlive
  rw [hframes] at hsplit
  rw [hrequests] at hlater
  refine ⟨rest.requests.1, b, hlater, hb, ?_⟩
  have hlength : fs.length = ((new maxParallel).started es).length := by
    simpa using congrArg List.length h.carry.requests
  rw [hlater, List.map_append] at hsplit
  obtain ⟨hfs, _⟩ := List.append_inj hsplit (by rw [List.length_map, hlength])
  obtain ⟨future, hfuture⟩ := hstream
  rw [← heq, hlater, List.map_append, List.flatten_append, hfs, List.append_assoc,
    List.append_assoc] at hfuture
  rw [← List.append_cancel_left hfuture]
  exact List.prefix_append ..

/-- The requests that wait in the buffers of a supervisor, each with its descriptors, and the part
of the next one that has been received. -/
structure Waits (l : Loop F) (ws later : List (Request F)) (part : Flow F) : Prop where
  bytes : l.server.inbuf = Flow.bytes ((ws.map Request.flow).flatten ++ part)
  descriptors : l.server.descriptors
    = (ws.flatMap fun r => r.descriptors.present) ++ part.descriptors
  part : part = [] ∨ ∃ r, later.head? = some r ∧ part <+: r.flow ∧ part.length < r.flow.length
  count : queuedFrames l.server.inbuf = ws.length

theorem isWhole_of_encodes {r : Request F} (h : r.Encodes) : IsWhole r.flow.bytes := by
  have hcarry : Flow.Carry ([r].map Request.flow) [r] := Request.carry_of_encodes (by simpa using h)
  exact (hcarry.frames r.flow List.mem_cons_self).isWhole

theorem exists_waits {later : List (Request F)} {b : Flow F} (hlater : ∀ r ∈ later, r.Encodes)
    (hb : l.server.Holds b) (hcut : b <+: (later.map Request.flow).flatten)
    : ∃ ws later' part, later = ws ++ later' ∧ l.Waits ws later' part := by
  obtain ⟨n, part, rfl, hpart⟩ := exists_take_of_prefix_flatten hcut
  rw [← List.map_take] at hb
  have hpart : part = [] ∨ ∃ r, (later.drop n).head? = some r ∧ part <+: r.flow
      ∧ part.length < r.flow.length := by
    obtain hnil | ⟨f, hf, hpart⟩ := hpart
    . exact .inl hnil
    . rw [List.getElem?_map, Option.map_eq_some_iff] at hf
      obtain ⟨r, hr, rfl⟩ := hf
      exact .inr ⟨r, by rw [List.head?_drop, hr], hpart⟩
  have hlast : NoneWhole (Flow.bytes part) := by
    obtain rfl | ⟨r, hr, hfront, hlt⟩ := hpart
    . exact Frame.noneWhole_nil
    . have hmem : r ∈ later := List.mem_of_mem_drop (List.mem_of_mem_head? hr)
      apply Frame.noneWhole_of_prefix (isWhole_of_encodes (hlater r hmem))
      . exact hfront.map Prod.fst
      . rw [Flow.length_bytes, Flow.length_bytes]
        exact hlt
  refine ⟨later.take n, later.drop n, part, (List.take_append_drop n later).symm, ?_⟩
  constructor
  case bytes => exact hb.bytes
  case descriptors =>
    rw [hb.descriptors, Flow.descriptors_append, Request.descriptors_flatten_map_flow]
  case part => exact hpart
  case count =>
    rw [hb.bytes, Flow.bytes_append, Flow.bytes_flatten, queuedFrames_flatten_append,
      queuedFrames_eq_zero hlast, Nat.add_zero, List.length_map, List.length_map]
    rw [List.map_map, List.forall_mem_map]
    exact fun r hr => isWhole_of_encodes (hlater r (List.mem_of_mem_take hr))

/-- While requests arrive one after the other, the complete frames that wait are those of the next
requests, with their descriptors, and behind them is at most a part of one more. Their number is
not bounded by the frames that reading pauses for: everything from some place behind fewer frames on
may have come with one receive, however many frames that is. -/
theorem waits_behind_one_receive (maxParallel : Nat) (es : List (Event F)) (l : Loop F)
    (rs : List (Request F)) (hrs : ∀ r ∈ rs, r.Encodes) (hrun : (new maxParallel).run es = some l)
    (hstream : ofSegments (arrivals es) <+: (rs.map Request.flow).flatten)
    (hlive : l.isEnded = false)
    : ∃ ws later part,
        rs = (new maxParallel).started es ++ ws ++ later
          ∧ l.Waits ws later part
          ∧ OneReceive l.server.inbuf
          ∧ (ws.length - maxQueuedFrames) * Request.leastFrame < readChunk := by
  obtain ⟨later, b, rfl, hb, hcut⟩ := exists_later hrs hrun hstream hlive
  have hlater : ∀ r ∈ later, r.Encodes := fun r hr => hrs r (List.mem_append_right _ hr)
  obtain ⟨ws, later, part, rfl, hwaits⟩ := exists_waits hlater hb hcut
  obtain ⟨hreceive, _⟩ := run_buffered buffered_oneReceive hrun
  refine ⟨ws, later, part, (List.append_assoc ..).symm, hwaits, hreceive, ?_⟩
  have hframes : l.server.inbuf
      = ((ws.map Request.flow).map Flow.bytes).flatten ++ part.bytes := by
    rw [hwaits.bytes, Flow.bytes_append, Flow.bytes_flatten]
  rw [hframes] at hreceive
  have hlt := hreceive.mul_lt_readChunk (m := Request.leastFrame)
  rw [List.map_map, List.forall_mem_map, List.forall_mem_map, List.length_map] at hlt
  apply hlt
  . exact fun r hr => isWhole_of_encodes (hlater r (List.mem_append_left _ hr))
  . exact fun r _ => r.leastFrame_le_length

def callTrue : Request Unit := { argv := ["true"] }

-- Six requests arrive before the first receive, and the first one takes the only slot.
def sixAtOnce : List (Event Unit) :=
  List.replicate 6 (.arrival ⟨Frame.ofBody callTrue.body, []⟩)
    ++ [.turn (.ok readChunk), .readable (.ok readChunk), .turn (.ok readChunk)]

theorem encodes_callTrue : ∀ r ∈ List.replicate 6 callTrue, r.Encodes := by
  intro r hr
  rw [List.eq_of_mem_replicate hr, Request.encodes_iff]
  exact ⟨_, rfl⟩

theorem ofSegments_sixAtOnce
    : ofSegments (arrivals sixAtOnce) <+: ((List.replicate 6 callTrue).map Request.flow).flatten :=
  List.prefix_rfl

theorem exists_run_sixAtOnce
    : ∃ l : Loop Unit,
        (new 1).run sixAtOnce = some l ∧ l.isEnded = false ∧ queuedFrames l.server.inbuf = 5 := by
  have h : ((new 1).run sixAtOnce).any (fun l =>
      !l.isEnded && l.server.inbuf = (List.replicate 5 (Frame.ofBody callTrue.body)).flatten ++ [])
      = true := by
    decide +kernel
  obtain ⟨l, hrun, hl⟩ := (Option.any_eq_true _ _).mp h
  simp only [Bool.and_eq_true, Bool.not_eq_true', decide_eq_true_eq] at hl
  refine ⟨l, hrun, hl.1, ?_⟩
  rw [hl.2, queuedFrames_flatten_append, queuedFrames_eq_zero Frame.noneWhole_nil]
  . rfl
  . intro f hf
    rw [List.eq_of_mem_replicate hf]
    rfl

theorem waits_behind_one_receive_of_sixAtOnce
    : (∀ r ∈ List.replicate 6 callTrue, r.Encodes)
        ∧ ofSegments (arrivals sixAtOnce)
            <+: ((List.replicate 6 callTrue).map Request.flow).flatten
        ∧ ∃ (l : Loop Unit) (ws later : List (Request Unit)) (part : Flow Unit),
            (new 1).run sixAtOnce = some l
              ∧ l.isEnded = false
              ∧ l.Waits ws later part
              ∧ ws.length = 5
              ∧ OneReceive l.server.inbuf := by
  refine ⟨encodes_callTrue, ofSegments_sixAtOnce, ?_⟩
  obtain ⟨l, hrun, hlive, hqueued⟩ := exists_run_sixAtOnce
  obtain ⟨ws, later, part, _, hwaits, hreceive, _⟩ :=
    waits_behind_one_receive 1 sixAtOnce l (List.replicate 6 callTrue) encodes_callTrue hrun
      ofSegments_sixAtOnce hlive
  exact ⟨l, ws, later, part, hrun, hlive, hwaits, hwaits.count.symm.trans hqueued, hreceive⟩

theorem not_queuedFrames_le
    : ¬ ∀ (maxParallel : Nat) (es : List (Event Unit)) (l : Loop Unit) (rs : List (Request Unit)),
        (∀ r ∈ rs, r.Encodes) → (new maxParallel).run es = some l →
          ofSegments (arrivals es) <+: (rs.map Request.flow).flatten → l.isEnded = false →
            queuedFrames l.server.inbuf ≤ maxQueuedFrames := by
  intro h
  obtain ⟨l, hrun, hlive, hqueued⟩ := exists_run_sixAtOnce
  have := h 1 sixAtOnce l (List.replicate 6 callTrue) encodes_callTrue hrun
    ofSegments_sixAtOnce hlive
  rw [hqueued] at this
  contradiction

end Loop

end Supervisor
end Enclosure
