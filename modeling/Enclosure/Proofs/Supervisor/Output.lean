import Enclosure.Proofs.Supervisor.Run

/-!
This module contains the invariant of what a supervisor answers: the verdicts go out in the order of
the requests, and what is in flight are the requests behind those that have been answered.
-/

namespace Enclosure.Supervisor.Loop

/-- The way from the started requests to the written bytes. Of the requests `rs` the first ones have
come to the verdicts `vs`, whose frames are those that have been written or are queued. -/
structure Answers (slots : Nat) (es : List (Event F)) (rs : List (Request F)) (vs : List Verdict)
    (frames : List (List UInt8)) (l : Loop F) : Prop where
  maxParallel : l.server.maxParallel = slots
  started : l.server.started = rs.length
  le : vs.length ≤ rs.length
  parallel : rs.length - vs.length ≤ slots
  verdicts : ∀ i < vs.length, verdictOf es i = vs[i]?
  future : ∀ i, rs.length ≤ i → verdictOf es i = none
  encoded : vs.map Verdict.encode = frames.map .ok
  output : l.socket.written ++ l.server.outbuf = frames.flatten
  inFlight : ∃ answered,
    (l.isEnded = false → answered = vs.length)
      ∧ l.server.inFlight = (tasksFrom 0 (verdictOf es) rs).drop answered

structure SameOutput (l l' : Loop F) : Prop where
  maxParallel : l'.server.maxParallel = l.server.maxParallel
  started : l'.server.started = l.server.started
  inFlight : l'.server.inFlight = l.server.inFlight
  outbuf : l'.server.outbuf = l.server.outbuf
  written : l'.socket.written = l.socket.written

theorem read_sameOutput (l : Loop F) {answer : Answer} (h : answer.isSome = true)
    (onNothing : Phase)
    : SameOutput l (l.read answer onNothing) := by
  obtain h | ⟨segments, fault, h⟩ | ⟨_, h⟩ | ⟨n, bytes, descriptors, segments, _, _, h⟩ :=
    l.read_cases h onNothing
  all_goals
    rw [h]
    constructor <;> rfl

namespace Answers

variable {slots : Nat} {es : List (Event F)} {rs : List (Request F)} {vs : List Verdict}
  {frames : List (List UInt8)} {l : Loop F}

theorem new (maxParallel : Nat)
    : Answers (max 1 maxParallel) [] [] [] [] (Loop.new maxParallel : Loop F) where
  maxParallel := rfl
  started := rfl
  le := Nat.le_refl 0
  parallel := Nat.zero_le _
  verdicts := by simp
  future := by simp [verdictOf]
  encoded := rfl
  output := rfl
  inFlight := ⟨0, fun _ => rfl, rfl⟩

theorem same (h : Answers slots es rs vs frames l) {l' : Loop F} (hsame : SameOutput l l')
    (hlive : l.isEnded = true → l'.isEnded = true)
    : Answers slots es rs vs frames l' where
  maxParallel := hsame.maxParallel.trans h.maxParallel
  started := hsame.started.trans h.started
  le := h.le
  parallel := h.parallel
  verdicts := h.verdicts
  future := h.future
  encoded := h.encoded
  output := by rw [hsame.written, hsame.outbuf, h.output]
  inFlight := by
    obtain ⟨answered, hanswered, heq⟩ := h.inFlight
    refine ⟨answered, ?_, hsame.inFlight.trans heq⟩
    intro hended
    apply hanswered
    rw [← Bool.not_eq_true] at hended ⊢
    exact mt hlive hended

theorem concat (h : Answers slots es rs vs frames l) {e : Event F}
    (he : ∀ i, verdictOf [e] i = none)
    : Answers slots (es ++ [e]) rs vs frames l := by
  have hverdict : verdictOf (es ++ [e]) = verdictOf es := by
    funext i
    rw [verdictOf_append, he, Option.or_none]
  exact { h with
    verdicts := hverdict ▸ h.verdicts
    future := hverdict ▸ h.future
    inFlight := hverdict ▸ h.inFlight }

theorem inFlight_eq (h : Answers slots es rs vs frames l) (hended : l.isEnded = false)
    : l.server.inFlight = (tasksFrom 0 (verdictOf es) rs).drop vs.length := by
  obtain ⟨answered, hanswered, heq⟩ := h.inFlight
  rw [heq, hanswered hended]

theorem length_frames (h : Answers slots es rs vs frames l) : frames.length = vs.length := by
  have := congrArg List.length h.encoded
  rw [List.length_map, List.length_map] at this
  exact this.symm

theorem split {first later : List Verdict} (h : Answers slots es rs (first ++ later) frames l)
    : ∃ gs fs,
        frames = gs ++ fs
          ∧ gs.length = first.length
          ∧ later.map Verdict.encode = fs.map .ok
          ∧ l.socket.written.drop gs.flatten.length <+: fs.flatten := by
  have hencoded := h.encoded
  rw [List.map_append] at hencoded
  obtain ⟨gs, fs, rfl, hgs, hfs⟩ := List.map_eq_append_iff.mp hencoded.symm
  refine ⟨gs, fs, rfl, ?_, hfs.symm, ?_⟩
  . have := congrArg List.length hgs
    rw [List.length_map, List.length_map] at this
    exact this
  . have houtput := congrArg (List.drop gs.flatten.length) h.output
    rw [List.flatten_append, List.drop_left, List.drop_append] at houtput
    exact ⟨_, houtput⟩

theorem length_inFlight (h : Answers slots es rs vs frames l) (hended : l.isEnded = false)
    : l.server.inFlight.length = rs.length - vs.length := by
  rw [h.inFlight_eq hended, List.length_drop, length_tasksFrom]

theorem start (h : Answers slots es rs vs frames l) (hended : l.isEnded = false)
    {s : Server F} (hstarts : l.server.Starts rs' s)
    (hroom : rs'.length ≤ l.server.maxParallel - l.server.inFlight.length)
    : Answers slots es (rs ++ rs') vs frames { l with server := s } := by
  have hlength := h.length_inFlight hended
  have hslots := h.maxParallel
  have hle := h.le
  have hparallel := h.parallel
  have heq := hstarts.eq
  constructor
  case maxParallel => rw [heq]; exact hslots
  case started => rw [heq, List.length_append, ← h.started]
  case le => rw [List.length_append]; omega
  case parallel => rw [List.length_append]; omega
  case verdicts => exact h.verdicts
  case future =>
    intro i hi
    rw [List.length_append] at hi
    apply h.future
    omega
  case encoded => exact h.encoded
  case output => rw [heq]; exact h.output
  case inFlight =>
    refine ⟨vs.length, fun _ => rfl, ?_⟩
    rw [tasksFrom_append, List.drop_append_of_le_length (by rw [length_tasksFrom]; exact hle)]
    rw [heq]
    dsimp only
    rw [h.inFlight_eq hended, h.started, Nat.zero_add]
    congr 1
    -- A task that has just been started has not come to a verdict.
    apply tasksFrom_congr
    intro i hi _
    rw [h.future i hi]

theorem turn (h : Answers slots es rs vs frames l) (hended : l.isEnded = false)
    {answer : Answer} (ha : answer.isSome = true)
    : Answers slots (es ++ [.turn answer]) (rs ++ l.startedBy (l.turn answer)) vs frames
        (l.turn answer) := by
  obtain ⟨rs', s, hstarts, hstarted, hroom, hres⟩ := l.turn_cases ha
  have hstart := h.start hended hstarts hroom
  have hsame : SameOutput { l with server := s } (l.turn answer) := by
    obtain ⟨e, descriptors, _, _, hturn⟩ | ⟨_, _, unreadInput, hturn | ⟨_, _, hturn⟩⟩ := hres
    . rw [hturn]
      constructor <;> rfl
    . rw [hturn]
      constructor <;> rfl
    . rw [hturn]
      have := read_sameOutput { l with server := { s with unreadInput } } ha .waiting
      constructor
      . exact this.maxParallel
      . exact this.started
      . exact this.inFlight
      . exact this.outbuf
      . exact this.written
  rw [hstarted]
  apply concat
  . apply hstart.same hsame
    intro hnot
    rw [show Loop.isEnded { l with server := s } = l.isEnded from rfl, hended] at hnot
    contradiction
  . intro i
    rfl

theorem write (h : Answers slots es rs vs frames l) (hended : l.isEnded = false) (answer : Answer)
    : Answers slots es rs vs frames (l.write answer) := by
  cases answer with
  | error fault =>
    apply h.same
    . constructor <;> rfl
    . intro _
      rfl
  | ok n =>
    exact { h with
      output := by
        have := h.output
        simp only [Loop.write, List.append_assoc, List.take_append_drop]
        exact this
      inFlight := ⟨vs.length, fun _ => rfl, h.inFlight_eq hended⟩ }

theorem respond (h : Answers slots es rs vs frames l) (hended : l.isEnded = false)
    : ∃ vs' frames',
        vs <+: vs' ∧ frames <+: frames' ∧ Answers slots es rs vs' frames' l.respond := by
  obtain hnone | ⟨id, r, v, inFlight, hflight, hres⟩ := l.respond_cases
  . rw [hnone]
    exact ⟨vs, frames, List.prefix_rfl, List.prefix_rfl, h⟩
  have heq := h.inFlight_eq hended
  have hlt : vs.length < rs.length := by
    have hlength := h.length_inFlight hended
    rw [hflight, List.length_cons] at hlength
    omega
  rw [hflight, List.drop_eq_getElem_cons (by rw [length_tasksFrom]; exact hlt),
    getElem_tasksFrom _ _ _ _ hlt, Nat.zero_add] at heq
  injection heq with htask hrest
  injection htask with _ _ hv
  obtain ⟨e, hencode, hrespond⟩ | ⟨frame, hencode, hrespond⟩ := hres
  . refine ⟨vs, frames, List.prefix_rfl, List.prefix_rfl, ?_⟩
    rw [hrespond]
    -- The task is gone although its verdict has not been queued, which only an ended loop may do.
    exact { h with inFlight := ⟨vs.length + 1, fun hlive => by contradiction, hrest⟩ }
  . refine ⟨vs ++ [v], frames ++ [frame], List.prefix_append _ _, List.prefix_append _ _, ?_⟩
    rw [hrespond]
    have hparallel := h.parallel
    constructor
    case maxParallel => exact h.maxParallel
    case started => exact h.started
    case le =>
      rw [List.length_append, List.length_singleton]
      exact hlt
    case parallel =>
      rw [List.length_append]
      omega
    case verdicts =>
      intro i hi
      rw [List.length_append, List.length_singleton] at hi
      cases Nat.lt_succ_iff_lt_or_eq.mp hi with
      | inl hi =>
        rw [List.getElem?_append_left hi]
        exact h.verdicts i hi
      | inr hi =>
        rw [hi, List.getElem?_concat_length]
        exact hv.symm
    case future => exact h.future
    case encoded =>
      rw [List.map_append, List.map_append, h.encoded, List.map_singleton, hencode]
      rfl
    case output =>
      rw [List.flatten_append, List.flatten_singleton, ← h.output, List.append_assoc]
    case inFlight =>
      refine ⟨vs.length + 1, ?_, hrest⟩
      intro _
      rw [List.length_append]
      rfl

theorem verdict (h : Answers slots es rs vs frames l) {id : Nat} {v : Verdict}
    (htask : ∃ t ∈ l.server.inFlight, t.id = id ∧ t.result = none)
    : Answers slots (es ++ [.verdict id v]) rs vs frames
        { l with server := l.server.finishTask id v } := by
  obtain ⟨answered, hanswered, heq⟩ := h.inFlight
  obtain ⟨t, ht, hid, hnone⟩ := htask
  rw [heq] at ht
  obtain ⟨hlt, hresult⟩ := of_mem_tasksFrom (List.mem_of_mem_drop ht)
  rw [hid, Nat.zero_add] at hlt
  rw [hid, hnone] at hresult
  have hadd := verdictOf_concat es id v
  constructor
  case maxParallel => exact h.maxParallel
  case started => exact h.started
  case le => exact h.le
  case parallel => exact h.parallel
  case verdicts =>
    intro i hi
    rw [hadd, h.verdicts i hi, List.getElem?_eq_getElem hi]
    rfl
  case future =>
    intro i hi
    rw [hadd, h.future i hi, if_neg (by omega)]
    rfl
  case encoded => exact h.encoded
  case output => exact h.output
  case inFlight =>
    refine ⟨answered, hanswered, ?_⟩
    unfold Server.finishTask
    dsimp only
    rw [heq, List.map_drop]
    congr 1
    unfold tasksFrom
    rw [List.map_map]
    apply List.map_congr_left
    intro p _
    rw [hadd]
    by_cases hp : p.2 = id
    . simp [hp, ← hresult]
    . simp [hp, Ne.symm hp]

end Answers

theorem step_answers {slots : Nat} {es : List (Event F)} {rs : List (Request F)} {vs : List Verdict}
    {frames : List (List UInt8)} {l l' : Loop F} {e : Event F}
    (h : Answers slots es rs vs frames l) (hstep : l.step e = some l')
    : ∃ vs' frames',
        vs <+: vs'
          ∧ frames <+: frames'
          ∧ Answers slots (es ++ [e]) (rs ++ l.startedBy l') vs' frames' l' := by
  have hnil := startedBy_eq_nil_of_step hstep
  obtain ⟨henabled, rfl⟩ := step_eq_some_iff.mp hstep
  have hvs : vs <+: vs := List.prefix_rfl
  have hframes : frames <+: frames := List.prefix_rfl
  -- Most events leave the way from the requests to the output alone.
  have hquiet (hsame : SameOutput l (l.apply e))
      (hlive : l.isEnded = true → (l.apply e).isEnded = true)
      : Answers slots es rs vs frames (l.apply e) := h.same hsame hlive
  cases e with
  | turn answer =>
    simp only [enabled, Bool.and_eq_true] at henabled
    exact ⟨vs, frames, hvs, hframes, h.turn (isEnded_of_isTop henabled.1) henabled.2⟩
  | verdict id v =>
    rw [hnil (by simp), List.append_nil]
    refine ⟨vs, frames, hvs, hframes, h.verdict ?_⟩
    simpa [enabled] using henabled
  | respond =>
    simp only [enabled, Bool.and_eq_true] at henabled
    obtain ⟨vs', frames', hvs', hframes', hrespond⟩ := h.respond (isEnded_of_isWaiting henabled.1)
    rw [hnil (by simp), List.append_nil]
    exact ⟨vs', frames', hvs', hframes', hrespond.concat fun _ => rfl⟩
  | writable answer =>
    simp only [enabled, Bool.and_eq_true] at henabled
    have hwrite := h.write (isEnded_of_isWaiting henabled.1) answer
    rw [hnil (by simp), List.append_nil]
    exact ⟨vs, frames, hvs, hframes, hwrite.concat fun _ => rfl⟩
  | arrival | close =>
    rw [hnil (by simp), List.append_nil]
    exact ⟨vs, frames, hvs, hframes, (hquiet ⟨rfl, rfl, rfl, rfl, rfl⟩ id).concat fun _ => rfl⟩
  | noticePaused =>
    simp only [enabled, Bool.and_eq_true] at henabled
    have hended := isEnded_of_isWaiting henabled.1.1
    rw [hnil (by simp), List.append_nil]
    refine ⟨vs, frames, hvs, hframes, (hquiet ?_ ?_).concat fun _ => rfl⟩
    . change SameOutput l l.noticePaused
      unfold noticePaused
      split
      all_goals
        constructor <;> rfl
    . intro hlive
      rw [hended] at hlive
      contradiction
  | readable answer =>
    simp only [enabled, Bool.and_eq_true] at henabled
    have hended := isEnded_of_isWaiting henabled.1.1.1
    rw [hnil (by simp), List.append_nil]
    refine ⟨vs, frames, hvs, hframes,
      (hquiet (read_sameOutput l henabled.2 .top) ?_).concat fun _ => rfl⟩
    intro hlive
    rw [hended] at hlive
    contradiction

theorem run_answers {slots : Nat} {es es' : List (Event F)} {rs : List (Request F)}
    {vs : List Verdict} {frames : List (List UInt8)} {l l' : Loop F}
    (h : Answers slots es rs vs frames l) (hrun : l.run es' = some l')
    : ∃ vs' frames',
        vs <+: vs'
          ∧ frames <+: frames'
          ∧ Answers slots (es ++ es') (rs ++ l.started es') vs' frames' l' := by
  refine run_induction (P := fun es' rs' l' => ∃ vs' frames',
    vs <+: vs' ∧ frames <+: frames' ∧ Answers slots (es ++ es') (rs ++ rs') vs' frames' l')
    ?_ ?_ hrun
  . rw [List.append_nil, List.append_nil]
    exact ⟨vs, frames, List.prefix_rfl, List.prefix_rfl, h⟩
  . intro es' rs' l₁ e l₂ ih hstep
    obtain ⟨vs₁, frames₁, hvs₁, hframes₁, h₁⟩ := ih
    obtain ⟨vs₂, frames₂, hvs₂, hframes₂, h₂⟩ := step_answers h₁ hstep
    rw [List.append_assoc, List.append_assoc] at h₂
    exact ⟨vs₂, frames₂, hvs₁.trans hvs₂, hframes₁.trans hframes₂, h₂⟩

def WaitsForRoom (l : Loop F) : Prop :=
  l.isWaiting = true → l.server.isFull = true ∨ l.server.NoFrame

theorem turn_waitsForRoom (l : Loop F) {answer : Answer} (ha : answer.isSome = true)
    : WaitsForRoom (l.turn answer) := by
  obtain ⟨rs, s, hstarts, _, hroom, hres⟩ := l.turn_cases ha
  obtain ⟨e, descriptors, _, _, hturn⟩ | ⟨_, hfront, unreadInput, hturn⟩ := hres
  . rw [hturn]
    intro hwaiting
    contradiction
  . have hfront := hstarts.isFull_or_noFrame hfront
    cases hturn with
    | inl hturn =>
      rw [hturn]
      intro _
      exact hfront
    | inr hturn =>
      rw [hturn.2.2]
      obtain h | ⟨_, _, h⟩ | ⟨_, h⟩ | ⟨_, _, _, _, _, _, h⟩ := read_cases _ ha .waiting
      . rw [h]
        intro hwaiting
        contradiction
      . rw [h]
        intro hwaiting
        contradiction
      . rw [h]
        intro _
        exact hfront
      . rw [h]
        intro hwaiting
        contradiction

theorem step_waitsForRoom {l l' : Loop F} (h : WaitsForRoom l) (hstep : l.step e = some l')
    : WaitsForRoom l' := by
  obtain ⟨henabled, rfl⟩ := step_eq_some_iff.mp hstep
  cases e with
  | arrival segment => exact h
  | close => exact h
  | noticePaused =>
    change WaitsForRoom l.noticePaused
    unfold noticePaused
    split
    all_goals
      intro hwaiting
      contradiction
  | readable answer =>
    simp only [enabled, Bool.and_eq_true] at henabled
    change WaitsForRoom (l.read answer .top)
    obtain h | ⟨_, _, h⟩ | ⟨_, h⟩ | ⟨_, _, _, _, _, _, h⟩ := l.read_cases henabled.2 .top
    all_goals
      rw [h]
      intro hwaiting
      contradiction
  | writable answer =>
    cases answer
    all_goals
      intro hwaiting
      contradiction
  | respond =>
    change WaitsForRoom l.respond
    obtain hnone | ⟨_, _, _, _, _, ⟨_, _, hrespond⟩ | ⟨_, _, hrespond⟩⟩ := l.respond_cases
    . rw [hnone]
      exact h
    . rw [hrespond]
      intro hwaiting
      contradiction
    . rw [hrespond]
      intro hwaiting
      contradiction
  | turn answer =>
    simp only [enabled, Bool.and_eq_true] at henabled
    exact l.turn_waitsForRoom henabled.2
  | verdict id v =>
    intro hwaiting
    cases h hwaiting with
    | inl hfull =>
      left
      simpa [apply, Server.finishTask, Server.isFull] using hfull
    | inr hnone => exact .inr hnone

/-- However a run goes, the verdicts of the first requests, as many as there are in `vs`, have gone
into the written bytes and the output buffer in the order of the requests, and what is in flight are
the tasks of the others, at most as many as may run at once. The loop only waits when no slot is
free or no complete frame is there. -/
theorem output_in_order (maxParallel : Nat) (es : List (Event F)) (l : Loop F)
    (h : (new maxParallel).run es = some l)
    : ∃ (vs : List Verdict) (frames : List (List UInt8)),
        vs.length ≤ ((new maxParallel : Loop F).started es).length
          ∧ ((new maxParallel : Loop F).started es).length - vs.length ≤ max 1 maxParallel
          ∧ (∀ i < vs.length, verdictOf es i = vs[i]?)
          ∧ vs.map Verdict.encode = frames.map .ok
          ∧ l.socket.written ++ l.server.outbuf = frames.flatten
          ∧ l.socket.written <+: frames.flatten
          ∧ (l.isEnded = false →
              l.server.inFlight
                = (tasksFrom 0 (verdictOf es) ((new maxParallel).started es)).drop vs.length)
          ∧ (l.isWaiting = true → l.server.isFull = true ∨ l.server.NoFrame) := by
  obtain ⟨vs, frames, _, _, hanswers⟩ := run_answers (.new maxParallel) h
  rw [List.nil_append, List.nil_append] at hanswers
  have hwaits : WaitsForRoom l :=
    run_induction (P := fun _ _ l => WaitsForRoom l) (fun hwaiting => by contradiction)
      (fun _ _ _ _ _ h hstep => step_waitsForRoom h hstep) h
  refine ⟨vs, frames, hanswers.le, hanswers.parallel, hanswers.verdicts, hanswers.encoded,
    hanswers.output, ?_, hanswers.inFlight_eq, hwaits⟩
  rw [← hanswers.output]
  apply List.prefix_append

-- Two requests arrive and are started. The second one is done first, and of the two answers only
-- that of the first one is written whole.
def halfAnswered : List (Event Unit) :=
  [.arrival ⟨[27, 0, 0, 0] ++ List.replicate 27 0 ++ [27, 0, 0, 0] ++ List.replicate 27 0, []⟩,
   .turn (.ok 1), .readable (.ok 100), .turn (.ok 1), .verdict 1 (.failed "b"),
   .verdict 0 (.failed "a"), .respond, .turn (.ok 1), .respond, .turn (.ok 1), .writable (.ok 12)]

theorem output_in_order_of_halfAnswered
    : ∃ (l : Loop Unit) (vs : List Verdict) (frames : List (List UInt8)),
        (new 2).run halfAnswered = some l
          ∧ vs.length ≤ ((new 2 : Loop Unit).started halfAnswered).length
          ∧ (∀ i < vs.length, verdictOf halfAnswered i = vs[i]?)
          ∧ vs.map Verdict.encode = frames.map .ok
          ∧ l.socket.written = [6, 0, 0, 0, 1, 1, 0, 0, 0, 97, 6, 0]
          ∧ l.socket.written <+: frames.flatten := by
  have hwritten : ((new 2).run halfAnswered).map (·.socket.written)
      = some [6, 0, 0, 0, 1, 1, 0, 0, 0, 97, 6, 0] := by
    decide +kernel
  obtain ⟨l, hrun, hwritten⟩ := Option.map_eq_some_iff.mp hwritten
  obtain ⟨vs, frames, hle, _, hverdicts, hencode, _, hfront, _⟩ :=
    output_in_order 2 halfAnswered l hrun
  exact ⟨l, vs, frames, hrun, hle, hverdicts, hencode, hwritten, hfront⟩

end Enclosure.Supervisor.Loop
