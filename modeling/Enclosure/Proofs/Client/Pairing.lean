import Enclosure.Proofs.Client.Link
import Enclosure.Proofs.Supervisor.Input
import Enclosure.Proofs.Supervisor.Output
import Enclosure.Proofs.Transfer

/-!
This module contains the pairing of requests and verdicts on one connection. Nothing in a frame says
which request it belongs to; both ends only count.
-/

namespace Enclosure

open Supervisor (Loop)
open Supervisor.Loop (Event arrivals verdictOf Answers)

def issued (history : List (Call F × Reply)) : List (Handle × Request F) :=
  history.filterMap fun
    | (.send r, .sent (.ok h)) => some (h, r)
    | _ => none

def redeemed (history : List (Call F × Reply)) : List (Handle × Verdict) :=
  history.filterMap fun
    | (.await h, .awaited (.ok (.ok v))) => some (h, v)
    | _ => none

def IssuedBefore (history : List (Call F × Reply)) : Prop :=
  ∀ (j : Nat) (h : Handle) (v : Verdict),
    history[j]? = some (.await h, .awaited (.ok (.ok v))) →
      ∃ i < j, ∃ r, history[i]? = some (.send r, .sent (.ok h))

def numbered (token : UInt32) (l : List α) : List (Handle × α) :=
  l.zipIdx.map fun p => (⟨p.2, token⟩, p.1)

theorem issued_append (history history' : List (Call F × Reply))
    : issued (history ++ history') = issued history ++ issued history' :=
  List.filterMap_append

theorem redeemed_append (history history' : List (Call F × Reply))
    : redeemed (history ++ history') = redeemed history ++ redeemed history' :=
  List.filterMap_append

theorem exists_of_issued {history : List (Call F × Reply)} {i : Nat} {h : Handle} {r : Request F}
    (hi : (issued history)[i]? = some (h, r))
    : ∃ i < history.length, history[i]? = some (.send r, .sent (.ok h)) := by
  obtain ⟨entry, hmem, hentry⟩ := List.mem_filterMap.mp (List.mem_of_getElem? hi)
  obtain ⟨i, hlt, hget⟩ := List.getElem_of_mem hmem
  refine ⟨i, hlt, ?_⟩
  rw [List.getElem?_eq_getElem hlt, hget]
  split at hentry
  . cases hentry
    rfl
  . contradiction

theorem forall_getElem?_concat {P : Nat → α → Prop} {l : List α} {a : α}
    (h : ∀ i b, l[i]? = some b → P i b) (ha : P l.length a)
    : ∀ i b, (l ++ [a])[i]? = some b → P i b := by
  intro i b hi
  by_cases hlt : i < l.length
  . rw [List.getElem?_append_left hlt] at hi
    exact h i b hi
  . rw [List.getElem?_append_right (Nat.le_of_not_lt hlt), List.getElem?_singleton] at hi
    split at hi
    . have : i = l.length := by omega
      cases hi
      rwa [this]
    . contradiction

theorem IssuedBefore.concat {history : List (Call F × Reply)} {entry : Call F × Reply}
    (hbefore : IssuedBefore history)
    (hentry : ∀ h v, entry = (.await h, .awaited (.ok (.ok v))) →
      ∃ (i : Nat) (r : Request F), (issued history)[i]? = some (h, r))
    : IssuedBefore (history ++ [entry]) := by
  have hkept {i : Nat} {r : Request F} {h : Handle}
      (hi : history[i]? = some (.send r, .sent (.ok h)))
      : (history ++ [entry])[i]? = some (.send r, .sent (.ok h)) := by
    rw [List.getElem?_append_left (List.getElem?_eq_some_iff.mp hi).1, hi]
  have hall : ∀ (j : Nat) (entry' : Call F × Reply), (history ++ [entry])[j]? = some entry' →
      ∀ h v, entry' = (.await h, .awaited (.ok (.ok v))) →
        ∃ i < j, ∃ r, (history ++ [entry])[i]? = some (.send r, .sent (.ok h)) := by
    refine forall_getElem?_concat ?_ ?_
    . rintro j _ hj h v rfl
      obtain ⟨i, hij, r, hi⟩ := hbefore j h v hj
      exact ⟨i, hij, r, hkept hi⟩
    . intro h v he
      obtain ⟨k, r, hk⟩ := hentry h v he
      obtain ⟨i, hi, hget⟩ := exists_of_issued hk
      exact ⟨i, hi, r, hkept hget⟩
  intro j h v hj
  exact hall j _ hj h v rfl

theorem numbered_concat (token : UInt32) (l : List α) (a : α)
    : numbered token (l ++ [a]) = numbered token l ++ [(⟨l.length, token⟩, a)] := by
  simp [numbered, List.zipIdx_append]

theorem getElem?_numbered (token : UInt32) (l : List α) (i : Nat)
    : (numbered token l)[i]? = l[i]?.map fun a => (⟨i, token⟩, a) := by
  simp [numbered, List.getElem?_zipIdx, Function.comp_def]

namespace Connection

variable {ρ F : Type}

structure Synced (maxParallel : Nat) (sent : List (Request F)) (answers : List Verdict)
    (s : Link ρ F) : Prop where
  isOpen : s.loop.socket.incoming.closed = false
  fits : ∀ r ∈ sent, r.LengthsFit ∧ r.body.length ≤ Frame.maxBody
  arrived : Flow.ofSegments (arrivals s.log) = (sent.map Request.flow).flatten
  read : ∃ vs frames,
    Answers (max 1 maxParallel) s.log ((Loop.new maxParallel).started s.log) vs frames s.loop
      ∧ answers <+: vs
      ∧ s.read = (frames.take answers.length).flatten.length

structure Answered (maxParallel : Nat) (s : Link ρ F) (i : Nat) (r : Request F) (w : Verdict)
    : Prop where
  started : ((Loop.new maxParallel).started s.log)[i]? = some r
  verdict : verdictOf s.log i = some w

/-- The history of a connection. Requests are started as they were sent, and verdicts returned as
the tasks of these requests came to them. -/
structure Paired (maxParallel : Nat) (token : UInt32) (history : List (Call F × Reply))
    (sent : List (Request F)) (answers : List Verdict) (c : Connection) (s : Link ρ F)
    : Prop where
  sameToken : c.token = token
  finished : c.isFinished = true → c.isOpen = false
  run : (Loop.new maxParallel).run s.log = some s.loop
  issued : issued history = numbered token sent
  redeemed : redeemed history = numbered token (answers.map Verdict.onWire)
  answered : ∀ (i : Nat) (w : Verdict), answers[i]? = some w →
    ∃ r, sent[i]? = some r ∧ Answered maxParallel s i r w
  before : IssuedBefore history
  synced : c.isOpen = true →
    Synced maxParallel sent answers s ∧ c.nextSend = sent.length ∧ c.nextAwait = answers.length

variable {maxParallel : Nat} {token : UInt32} {history : List (Call F × Reply)}
  {sent : List (Request F)} {answers : List Verdict} {c c' : Connection} {s s' : Link ρ F}

open Link (Follows Continues)

theorem run_of_continues (hrun : (Loop.new maxParallel).run s.log = some s.loop)
    (h : Continues s s')
    : (Loop.new maxParallel).run s'.log = some s'.loop := by
  obtain ⟨es, hes, hlog⟩ := h
  rw [hlog, Loop.run_append, hrun, Option.bind_some, hes]

theorem Answered.continues {i : Nat} {r : Request F} {w : Verdict}
    (hanswered : Answered maxParallel s i r w)
    (hrun : (Loop.new maxParallel).run s.log = some s.loop) (h : Continues s s')
    : Answered maxParallel s' i r w := by
  obtain ⟨es, _, hlog⟩ := h
  obtain ⟨hstarted, hverdict⟩ := hanswered
  constructor
  . rw [hlog, Loop.started_append hrun,
      List.getElem?_append_left (List.getElem?_eq_some_iff.mp hstarted).1, hstarted]
  . rw [hlog, Loop.verdictOf_append, hverdict]
    rfl

namespace Synced

theorem follow (h : Synced maxParallel sent answers s)
    (hrun : (Loop.new maxParallel).run s.log = some s.loop) {es : List (Event F)}
    (hfollows : Follows es s s') (hclose : .close ∉ es) {sent' : List (Request F)}
    (harrivals : Flow.ofSegments (arrivals es) = (sent'.map Request.flow).flatten)
    (hfits : ∀ r ∈ sent', r.LengthsFit ∧ r.body.length ≤ Frame.maxBody)
    : Synced maxParallel (sent ++ sent') answers s' where
  isOpen := (Loop.closed_of_run hfollows.run hclose).trans h.isOpen
  fits := List.forall_mem_append.mpr ⟨h.fits, hfits⟩
  arrived := by
    rw [hfollows.log, Loop.arrivals_append, List.map_append, List.flatten_append, ← h.arrived,
      ← harrivals]
    exact List.flatMap_append
  read := by
    obtain ⟨vs, frames, hanswers, hvs, hread⟩ := h.read
    obtain ⟨vs', frames', hvs', ⟨more, rfl⟩, hanswers'⟩ := Loop.run_answers hanswers hfollows.run
    rw [← hfollows.log, ← Loop.started_append hrun, ← hfollows.log] at hanswers'
    refine ⟨vs', frames ++ more, hanswers', hvs.trans hvs', ?_⟩
    have hle : answers.length ≤ frames.length := by
      rw [hanswers.length_frames]
      exact hvs.length_le
    rw [List.take_append_of_le_length hle, hfollows.read, hread]

theorem started_prefix (h : Synced maxParallel sent answers s)
    (hrun : (Loop.new maxParallel).run s.log = some s.loop)
    : (Loop.new maxParallel).started s.log <+: sent := by
  -- All that has arrived are sent requests, so they are what the stream parses to.
  have hcarry := Request.carry_map_flow h.fits
  have hframes := Flow.frames_append hcarry.frames []
  have hrequests := Flow.requests_append hcarry.frames hcarry.requests []
  rw [List.append_nil, ← h.arrived, Flow.frames_nil, List.append_nil] at hframes
  rw [List.append_nil, ← h.arrived, Flow.requests_nil, List.append_nil] at hrequests
  have hown : ∀ f ∈ (Flow.ofSegments (arrivals s.log)).frames.1, f.HasOwnDescriptors := by
    rw [hframes, List.forall_mem_map]
    intro r _
    exact r.hasOwnDescriptors_flow
  obtain ⟨fs, hinputs⟩ := Loop.run_inputs maxParallel hrun hown List.prefix_rfl
  obtain ⟨rest, _, hstarted⟩ := hinputs.requests_eq List.prefix_rfl
  rw [hrequests] at hstarted
  exact ⟨_, hstarted.symm⟩

theorem send (h : Synced maxParallel sent answers s)
    (hrun : (Loop.new maxParallel).run s.log = some s.loop) {r : Request F}
    (hencode : r.encode = .ok (frame, descriptors))
    (hsend : s.send frame descriptors = (.ok (), s'))
    : Continues s s' ∧ Synced maxParallel (sent ++ [r]) answers s' := by
  obtain ⟨hlengths, hsize⟩ : r.LengthsFit ∧ r.body.length ≤ Frame.maxBody := by
    apply r.encode_tooLarge_or_fits.resolve_left
    rw [hencode]
    simp
  rw [r.encode_eq_ok hlengths hsize] at hencode
  cases hencode
  obtain ⟨hok, rfl⟩ := Prod.mk.inj hsend
  have hpieces := Frame.forall_sendPieces_ne_nil (Frame.ofBody r.body) r.descriptors.present
    s.course.sendTurns
  obtain ⟨es, hfollows, harrivals, hclose⟩ :=
    Link.follows_deliver s.course.rounds hpieces h.isOpen
  have harrived : Flow.ofSegments (arrivals es) = ([r].map Request.flow).flatten := by
    rw [harrivals, Frame.flow_sendPieces hok, List.map_singleton, List.flatten_singleton]
    rfl
  refine ⟨hfollows.continues, h.follow hrun hfollows hclose harrived ?_⟩
  rw [List.forall_mem_singleton]
  exact ⟨hlengths, hsize⟩

theorem readFrom (h : Synced maxParallel sent answers s)
    (hrun : (Loop.new maxParallel).run s.log = some s.loop) {lengthTurns bodyTurns : List Nat}
    (hread : Verdict.readFrom (s.loop.socket.written.drop s.read) lengthTurns bodyTurns
      = (.ok v, rest))
    : ∃ w r,
        v = w.onWire
          ∧ Synced maxParallel sent (answers ++ [w])
              { s with read := s.loop.socket.written.length - rest.length }
          ∧ sent[answers.length]? = some r
          ∧ Answered maxParallel s answers.length r w := by
  obtain ⟨vs, frames, hanswers, ⟨later, rfl⟩, hconsumed⟩ := h.read
  -- The client has read whole frames, so it goes on with the frame of the next verdict.
  obtain ⟨gs, fs, rfl, hlength, hfs, hunread⟩ := hanswers.split
  rw [List.take_left' hlength] at hconsumed
  rw [← hconsumed] at hunread
  obtain ⟨w, later', frame, fs', rfl, rfl, rfl, hframe, hne⟩ :=
    Verdict.readFrom_ok hfs hunread hread
  have hlt : answers.length < ((Loop.new maxParallel).started s.log).length := by
    have := hanswers.le
    rw [List.length_append, List.length_cons] at this
    omega
  have hsent
      : sent[answers.length]? = some ((Loop.new maxParallel).started s.log)[answers.length] := by
    obtain ⟨more, hmore⟩ := h.started_prefix hrun
    rw [← hmore, List.getElem?_append_left hlt, List.getElem?_eq_getElem hlt]
  refine ⟨w, _, rfl, ?_, hsent, List.getElem?_eq_getElem hlt, ?_⟩
  . refine { h with read := ⟨_, _, hanswers, ?_, ?_⟩ }
    . rw [List.append_cons answers w later']
      apply List.prefix_append
    . have hlengths := congrArg List.length hframe
      have hpos := List.length_pos_iff.mpr hne
      rw [List.length_drop, List.length_append] at hlengths
      rw [List.append_cons gs, List.take_left' (by simp [hlength]), List.flatten_append,
        List.flatten_singleton, List.length_append, ← hconsumed]
      dsimp only
      omega
  . rw [hanswers.verdicts answers.length (by simp)]
    simp

theorem receive (h : Synced maxParallel sent answers s)
    (hrun : (Loop.new maxParallel).run s.log = some s.loop)
    (hreceive : s.receive = (.ok v, s'))
    : ∃ w r,
        v = w.onWire
          ∧ Continues s s'
          ∧ Synced maxParallel sent (answers ++ [w]) s'
          ∧ sent[answers.length]? = some r
          ∧ Answered maxParallel s' answers.length r w := by
  obtain ⟨es, hfollows, harrivals, hclose⟩ := s.follows_goOn s.course.rounds.flatten
  have harrived : Flow.ofSegments (arrivals es)
      = (([] : List (Request F)).map Request.flow).flatten := by
    rw [harrivals]
    rfl
  have hsynced := h.follow hrun hfollows hclose harrived (by simp)
  rw [List.append_nil] at hsynced
  have hrun := run_of_continues hrun hfollows.continues
  unfold Link.receive at hreceive
  dsimp only at hreceive
  split at hreceive
  . simp at hreceive
  . generalize hread : Verdict.readFrom _ _ _ = result at hreceive
    obtain ⟨_, rest⟩ := result
    cases hreceive
    obtain ⟨w, r, hv, hsynced', hsent, hanswered⟩ := hsynced.readFrom hrun hread
    exact ⟨w, r, hv, hfollows.continues, hsynced', hsent, { hanswered with }⟩

end Synced

namespace Paired

theorem untold (h : Paired maxParallel token history sent answers c s) {entry : Call F × Reply}
    (hissued : Enclosure.issued [entry] = []) (hredeemed : Enclosure.redeemed [entry] = [])
    (htoken : c'.token = c.token) (hfinished : c'.isFinished = true → c'.isOpen = false)
    (hcontinues : Continues s s')
    (hsynced : c'.isOpen = true →
      Synced maxParallel sent answers s'
        ∧ c'.nextSend = sent.length
        ∧ c'.nextAwait = answers.length)
    : Paired maxParallel token (history ++ [entry]) sent answers c' s' where
  sameToken := htoken.trans h.sameToken
  finished := hfinished
  run := run_of_continues h.run hcontinues
  issued := by rw [issued_append, hissued, List.append_nil, h.issued]
  redeemed := by rw [redeemed_append, hredeemed, List.append_nil, h.redeemed]
  answered := by
    intro i w hw
    obtain ⟨r, hsent, hanswered⟩ := h.answered i w hw
    exact ⟨r, hsent, hanswered.continues h.run hcontinues⟩
  before := by
    apply h.before.concat
    intro handle v hentry
    rw [hentry] at hredeemed
    contradiction
  synced := hsynced

theorem died [FileSystem ρ] (h : Paired maxParallel token history sent answers c s)
    {entry : Call F × Reply} (hissued : Enclosure.issued [entry] = [])
    (hredeemed : Enclosure.redeemed [entry] = []) {s₁ : Link ρ F} (hcontinues : Continues s s₁)
    {c₁ : Connection} (htoken : c₁.token = c.token)
    : Paired maxParallel token (history ++ [entry]) sent answers
        ((Connection.died : ClientM (Link ρ F) _) c₁ s₁).1.2
        ((Connection.died : ClientM (Link ρ F) _) c₁ s₁).2 := by
  obtain ⟨fault, isFinished, s₂, hdied, hcontinues'⟩ := died_spec Link.keepsEnding_continues c₁ s₁
  rw [hdied]
  refine h.untold hissued hredeemed ?_ ?_ ?_ ?_
  . exact htoken
  . intro _
    rfl
  . exact hcontinues.trans hcontinues'
  . intro hopen
    contradiction

theorem send [FileSystem ρ] (h : Paired maxParallel token history sent answers c s) (r : Request F)
    : ∃ sent',
        Paired maxParallel token (history ++ [(.send r, .sent (Connection.send r c s).1.1)]) sent'
          answers (Connection.send r c s).1.2 (Connection.send r c s).2 := by
  obtain ⟨fault, hrun⟩ | ⟨hopen, frame, descriptors, s', hencode, ⟨hsend, hrun⟩ | ⟨hsend, hrun⟩⟩ :=
    send_cases r c s
  . rw [hrun]
    exact ⟨sent, h.untold rfl rfl rfl h.finished (.refl s) h.synced⟩
  . obtain ⟨hsynced, hnextSend, hnextAwait⟩ := h.synced hopen
    obtain ⟨hcontinues, hsynced'⟩ := hsynced.send h.run hencode hsend
    rw [hrun]
    refine ⟨sent ++ [r], ?_⟩
    constructor
    case sameToken => exact h.sameToken
    case finished => exact h.finished
    case run => exact run_of_continues h.run hcontinues
    case issued =>
      rw [issued_append, h.issued, numbered_concat, hnextSend, h.sameToken]
      rfl
    case redeemed =>
      rw [redeemed_append, h.redeemed]
      exact List.append_nil _
    case answered =>
      intro i w hw
      obtain ⟨r', hsent, hanswered⟩ := h.answered i w hw
      refine ⟨r', ?_, hanswered.continues h.run hcontinues⟩
      rw [List.getElem?_append_left (List.getElem?_eq_some_iff.mp hsent).1, hsent]
    case before =>
      apply h.before.concat
      intro _ _ hentry
      simp at hentry
    case synced =>
      intro _
      exact ⟨hsynced', by rw [hnextSend, List.length_append, List.length_singleton], hnextAwait⟩
  . rw [hrun]
    refine ⟨sent, h.died rfl rfl ?_ rfl⟩
    rw [← hsend]
    exact Link.continues_deliver s _ _

theorem await [FileSystem ρ] (h : Paired maxParallel token history sent answers c s)
    (handle : Handle)
    : ∃ answers',
        Paired maxParallel token
          (history ++ [(.await handle, .awaited (Connection.await handle c s).1.1)]) sent answers'
          (Connection.await handle c s).1.2 (Connection.await handle c s).2 := by
  obtain ⟨fault, hrun⟩ | ⟨hhandle, ⟨hclosed, hrun⟩ | ⟨hopen, ⟨v, s', hreceive, hrun⟩
    | ⟨s', hreceive, hrun⟩⟩⟩ := await_cases handle c s
  . rw [hrun]
    exact ⟨answers, h.untold rfl rfl rfl h.finished (.refl s) h.synced⟩
  . rw [hrun]
    refine ⟨answers, h.untold rfl rfl rfl h.finished (.refl s) ?_⟩
    intro hopen
    have hopen : c.isOpen = true := hopen
    rw [hopen, Bool.not_true, Bool.or_false] at hclosed
    rw [h.finished hclosed] at hopen
    contradiction
  . obtain ⟨hsynced, hnextSend, hnextAwait⟩ := h.synced hopen
    obtain ⟨w, r, rfl, hcontinues, hsynced', hsent, hanswered⟩ :=
      hsynced.receive h.run hreceive
    have hhandle : handle = ⟨answers.length, token⟩ := by
      rw [hhandle, hnextAwait, h.sameToken]
    rw [hrun]
    refine ⟨answers ++ [w], ?_⟩
    constructor
    case sameToken => exact h.sameToken
    case finished => exact h.finished
    case run => exact run_of_continues h.run hcontinues
    case issued =>
      rw [issued_append, h.issued]
      exact List.append_nil _
    case redeemed =>
      rw [redeemed_append, h.redeemed, List.map_append, List.map_singleton, numbered_concat,
        List.length_map, hhandle]
      rfl
    case answered =>
      refine forall_getElem?_concat ?_ ⟨r, hsent, hanswered⟩
      intro i w' hw'
      obtain ⟨r', hsent', hanswered'⟩ := h.answered i w' hw'
      exact ⟨r', hsent', hanswered'.continues h.run hcontinues⟩
    case before =>
      apply h.before.concat
      intro h' v hentry
      cases hentry
      refine ⟨answers.length, r, ?_⟩
      rw [h.issued, getElem?_numbered, hsent, hhandle]
      rfl
    case synced =>
      intro _
      exact ⟨hsynced', hnextSend, by rw [hnextAwait, List.length_append, List.length_singleton]⟩
  . rw [hrun]
    refine ⟨answers, h.died rfl rfl ?_ rfl⟩
    rw [← hreceive]
    exact s.continues_receive

theorem withCourse (h : Paired maxParallel token history sent answers c s) (course : Course F)
    : Paired maxParallel token history sent answers c { s with course } :=
  { h with
    answered := by
      intro i w hw
      obtain ⟨r, hsent, hanswered⟩ := h.answered i w hw
      exact ⟨r, hsent, { hanswered with }⟩
    synced := fun hopen => ⟨{ (h.synced hopen).1 with }, (h.synced hopen).2⟩ }

theorem talk [FileSystem ρ] (h : Paired maxParallel token history sent answers c s)
    {calls : List (Call F × Course F)} {later : List (Call F × Reply)}
    (htalk : c.talk s calls = (later, c', s'))
    : ∃ sent' answers', Paired maxParallel token (history ++ later) sent' answers' c' s' := by
  induction calls generalizing history sent answers c s later with
  | nil =>
    cases htalk
    rw [List.append_nil]
    exact ⟨sent, answers, h⟩
  | cons call calls ih =>
    obtain ⟨call, course⟩ := call
    have hcourse := h.withCourse course
    unfold Connection.talk at htalk
    cases htalk
    rw [List.append_cons]
    cases call with
    | send r =>
      obtain ⟨sent', h'⟩ := hcourse.send r
      exact ih h' rfl
    | await handle =>
      obtain ⟨answers', h'⟩ := hcourse.await handle
      exact ih h' rfl

theorem new (maxParallel : Nat) (token : UInt32) (root : String) (shutdownTimeout : Duration)
    (files : ρ)
    : Paired maxParallel token ([] : List (Call F × Reply)) [] []
        { token, root, shutdownTimeout }
        { files, token, loop := .new maxParallel } where
  sameToken := rfl
  finished := by simp
  run := rfl
  issued := rfl
  redeemed := rfl
  answered := by simp
  before := by
    intro j h v hj
    simp at hj
  synced := by
    intro _
    refine ⟨⟨rfl, by simp, rfl, ?_⟩, rfl, rfl⟩
    exact ⟨[], [], .new maxParallel, List.prefix_rfl, rfl⟩

end Paired

/-- Whatever a client calls and whatever happens meanwhile, the handles of its requests are numbered
in the order of the requests, and the verdicts that it gets are, one after the other, those that the
tasks of these requests came to. -/
theorem redeemed_eq_verdict (maxParallel : Nat) (token : UInt32) (root : String)
    (shutdownTimeout : Duration) [FileSystem ρ] (files : ρ) (calls : List (Call F × Course F))
    (htalk : talk { token, root, shutdownTimeout } { files, token, loop := .new maxParallel } calls
      = (history, c, s))
    : (Loop.new maxParallel).run s.log = some s.loop
        ∧ (∀ (i : Nat) (h : Handle) (r : Request F),
            (issued history)[i]? = some (h, r) → h = ⟨i, token⟩)
        ∧ IssuedBefore history
        ∧ ∀ (i : Nat) (h : Handle) (v : Verdict), (redeemed history)[i]? = some (h, v) →
            ∃ r w,
              (issued history)[i]? = some (h, r)
                ∧ ((Loop.new maxParallel).started s.log)[i]? = some r
                ∧ verdictOf s.log i = some w
                ∧ (w.CpuFits → v = w.floorMicros) := by
  obtain ⟨sent, answers, h⟩ := (Paired.new maxParallel token root shutdownTimeout files).talk htalk
  rw [List.nil_append] at h
  refine ⟨h.run, ?_, h.before, ?_⟩
  . intro i handle r hi
    rw [h.issued, getElem?_numbered, Option.map_eq_some_iff] at hi
    obtain ⟨_, _, hi⟩ := hi
    exact (Prod.mk.inj hi).1.symm
  . intro i handle v hi
    rw [h.redeemed, getElem?_numbered, List.getElem?_map, Option.map_eq_some_iff] at hi
    obtain ⟨_, hw, hi⟩ := hi
    rw [Option.map_eq_some_iff] at hw
    obtain ⟨w, hw, rfl⟩ := hw
    cases hi
    obtain ⟨r, hsent, hanswered⟩ := h.answered i w hw
    refine ⟨r, w, ?_, hanswered.started, hanswered.verdict, w.onWire_eq_floorMicros⟩
    rw [h.issued, getElem?_numbered, hsent]
    rfl

-- Two requests are sent, the first one in two pieces, and the task of the second one is done
-- before that of the first one.
def sendAndAwait : List (Call Unit × Course Unit) :=
  [(.send { argv := ["a"] },
    { sendTurns := [.accepted 5]
      rounds := [[], [.turn (.ok 1), .readable (.ok 9)], [.turn (.ok 1), .readable (.ok 99)]] }),
   (.send { argv := ["b"] }, { rounds := [[.turn (.ok 1)], [.readable (.ok 99)]] }),
   (.await ⟨0, 7⟩,
    { lengthTurns := [1]
      rounds :=
        [[.turn (.ok 1), .verdict 1 (.failed "second"), .verdict 0 (.failed "first"), .respond,
          .turn (.ok 1), .respond, .turn (.ok 1), .writable (.ok 100)]] }),
   (.await ⟨1, 7⟩, {})]

theorem redeemed_eq_verdict_of_sendAndAwait
    : ∃ (history : List (Call Unit × Reply)) (c : Connection) (s : Link FileTree Unit),
        talk { token := 7, root := "", shutdownTimeout := .zero }
            { files := {}, token := 7, loop := .new 2 } sendAndAwait
          = (history, c, s)
          ∧ redeemed history = [(⟨0, 7⟩, .failed "first"), (⟨1, 7⟩, .failed "second")]
          ∧ (∃ r w,
              (issued history)[0]? = some (⟨0, 7⟩, r)
                ∧ ((Loop.new 2).started s.log)[0]? = some r
                ∧ verdictOf s.log 0 = some w
                ∧ (w.CpuFits → .failed "first" = w.floorMicros))
          ∧ ∃ r w,
              (issued history)[1]? = some (⟨1, 7⟩, r)
                ∧ ((Loop.new 2).started s.log)[1]? = some r
                ∧ verdictOf s.log 1 = some w
                ∧ (w.CpuFits → .failed "second" = w.floorMicros) := by
  rcases htalk : talk { token := 7, root := "", shutdownTimeout := .zero }
      ({ files := {}, token := 7, loop := .new 2 } : Link FileTree Unit) sendAndAwait
    with ⟨history, c, s⟩
  have hboth : redeemed (talk { token := 7, root := "", shutdownTimeout := .zero }
        ({ files := {}, token := 7, loop := .new 2 } : Link FileTree Unit) sendAndAwait).1
      = [(⟨0, 7⟩, .failed "first"), (⟨1, 7⟩, .failed "second")] := by
    decide +kernel
  rw [htalk] at hboth
  obtain ⟨_, _, _, hredeemed⟩ :=
    redeemed_eq_verdict 2 7 "" .zero ({} : FileTree) sendAndAwait htalk
  refine ⟨history, c, s, rfl, hboth, ?_, ?_⟩
  . exact hredeemed 0 ⟨0, 7⟩ (.failed "first") (by rw [hboth]; rfl)
  . exact hredeemed 1 ⟨1, 7⟩ (.failed "second") (by rw [hboth]; rfl)

end Connection

end Enclosure
