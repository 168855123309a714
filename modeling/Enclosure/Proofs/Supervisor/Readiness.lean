import Enclosure.Proofs.Supervisor.Run

/-!
This module contains the invariant of the readiness of a supervisor's socket: while there is
something to receive, it is only missing because it was cleared in a pause. Nothing but a new
arrival, or the end of the stream, brings it back.
-/

namespace Enclosure.Supervisor.Loop

-- Whether readiness has been noticed in a pause, and nothing has come since.
def noticed (es : List (Event F)) : Bool :=
  es.foldl after false
where
  after (before : Bool) : Event F → Bool
    | .noticePaused => true
    | .arrival _ | .close => false
    | _ => before

def HasInput (l : Loop F) : Prop :=
  l.socket.incoming.segments ≠ [] ∨ l.socket.incoming.closed = true

def ReadyIs (l : Loop F) (ready : Bool) : Prop :=
  l.isEnded = false → l.HasInput → l.socket.readReady = ready

theorem noticed_concat (es : List (Event F)) (e : Event F)
    : noticed (es ++ [e]) = noticed.after (noticed es) e := by
  unfold noticed
  rw [List.foldl_append]
  rfl

theorem readyIs_of_ended {l : Loop F} (h : l.isEnded = true) (ready : Bool) : l.ReadyIs ready := by
  intro hlive
  rw [h] at hlive
  contradiction

namespace ReadyIs

variable {l l' : Loop F} {ready : Bool}

theorem same (h : l.ReadyIs ready) (hlive : l'.isEnded = false → l.isEnded = false)
    (hincoming : l'.socket.incoming = l.socket.incoming)
    (hready : l'.socket.readReady = l.socket.readReady)
    : l'.ReadyIs ready := by
  intro hlive' hinput
  unfold HasInput at hinput
  rw [hincoming] at hinput
  rw [hready]
  exact h (hlive hlive') hinput

theorem read (h : l.ReadyIs ready) (hlive : l.isEnded = false) {answer : Answer}
    (ha : answer.isSome = true) (onNothing : Phase)
    : (l.read answer onNothing).ReadyIs ready := by
  obtain hread | ⟨segments, fault, hread⟩ | ⟨⟨hsegments, hclosed⟩, hread⟩
    | ⟨n, bytes, descriptors, segments, hn, htake, hread⟩ := l.read_cases ha onNothing
  . rw [hread]
    exact readyIs_of_ended rfl ready
  . rw [hread]
    exact readyIs_of_ended rfl ready
  . rw [hread]
    -- The readiness is cleared, but there is nothing to receive.
    rintro _ (hinput | hinput)
    . exact absurd hsegments hinput
    . exact absurd hinput (Bool.eq_false_iff.mp hclosed)
  . rw [hread]
    rintro _ (hinput | hinput)
    . apply h hlive
      left
      intro hnil
      rw [hnil] at htake
      cases htake
      contradiction
    . exact h hlive (.inr hinput)

theorem turn (h : l.ReadyIs ready) (hlive : l.isEnded = false) {answer : Answer}
    (ha : answer.isSome = true)
    : (l.turn answer).ReadyIs ready := by
  obtain ⟨rs, s, _, _, _, ⟨e, descriptors, _, _, hturn⟩
    | ⟨_, _, unreadInput, hturn | ⟨_, _, hturn⟩⟩⟩ := l.turn_cases ha
  . rw [hturn]
    exact readyIs_of_ended rfl ready
  . rw [hturn]
    exact h.same (fun _ => hlive) rfl rfl
  . rw [hturn]
    have : ReadyIs { l with server := { s with unreadInput } } ready := h.same id rfl rfl
    exact this.read hlive ha .waiting

theorem respond (h : l.ReadyIs ready) (hlive : l.isEnded = false) : l.respond.ReadyIs ready := by
  obtain hrespond | ⟨_, _, _, _, _, ⟨_, _, hrespond⟩ | ⟨_, _, hrespond⟩⟩ := l.respond_cases
  all_goals
    rw [hrespond]
  . exact h
  . exact readyIs_of_ended rfl ready
  . exact h.same (fun _ => hlive) rfl rfl

end ReadyIs

theorem step_readyIs {es : List (Event F)} {l l' : Loop F} {e : Event F}
    (h : l.ReadyIs (!noticed es)) (hstep : l.step e = some l')
    : l'.ReadyIs (!noticed (es ++ [e])) := by
  rw [noticed_concat]
  obtain ⟨henabled, rfl⟩ := step_eq_some_iff.mp hstep
  cases e with
  | arrival | close =>
    intro _ _
    rfl
  | noticePaused =>
    change l.noticePaused.ReadyIs false
    unfold noticePaused
    split
    . exact readyIs_of_ended rfl false
    . intro _ _
      rfl
  | verdict id v => exact h.same (fun hlive => hlive) rfl rfl
  | readable answer =>
    simp only [enabled, Bool.and_eq_true] at henabled
    exact h.read (isEnded_of_isWaiting henabled.1.1.1) henabled.2 .top
  | writable answer =>
    simp only [enabled, Bool.and_eq_true] at henabled
    cases answer with
    | error fault => exact readyIs_of_ended rfl _
    | ok n => exact h.same (fun _ => isEnded_of_isWaiting henabled.1) rfl rfl
  | respond =>
    simp only [enabled, Bool.and_eq_true] at henabled
    exact h.respond (isEnded_of_isWaiting henabled.1)
  | turn answer =>
    simp only [enabled, Bool.and_eq_true] at henabled
    exact h.turn (isEnded_of_isTop henabled.1) henabled.2

theorem run_readyIs (maxParallel : Nat) {es : List (Event F)} {l : Loop F}
    (hrun : (new maxParallel).run es = some l)
    : l.ReadyIs (!noticed es) := by
  refine run_induction (P := fun es _ l => l.ReadyIs (!noticed es)) ?_ ?_ hrun
  . rintro _ (hinput | hinput)
    . contradiction
    . contradiction
  . intro es _ l e l' h hstep
    exact step_readyIs h hstep

theorem incoming_of_step {l l' : Loop F} (hready : l.socket.readReady = false)
    (hstep : l.step e = some l') (harrivals : arrivals [e] = []) (hclose : e ≠ .close)
    : l'.socket.incoming = l.socket.incoming ∧ l'.socket.readReady = false := by
  obtain ⟨henabled, rfl⟩ := step_eq_some_iff.mp hstep
  cases e with
  | arrival segment => contradiction
  | close => contradiction
  | noticePaused | readable answer =>
    simp only [enabled, hready, Bool.and_false, Bool.false_and, Bool.false_eq_true] at henabled
  | verdict id v => exact ⟨rfl, hready⟩
  | writable answer => cases answer <;> exact ⟨rfl, hready⟩
  | respond =>
    change l.respond.socket.incoming = _ ∧ l.respond.socket.readReady = _
    obtain hrespond | ⟨_, _, _, _, _, ⟨_, _, hrespond⟩ | ⟨_, _, hrespond⟩⟩ := l.respond_cases
    all_goals
      rw [hrespond]
      exact ⟨rfl, hready⟩
  | turn answer =>
    simp only [enabled, Bool.and_eq_true] at henabled
    change (l.turn answer).socket.incoming = _ ∧ (l.turn answer).socket.readReady = _
    obtain ⟨rs, s, _, _, _, ⟨_, _, _, _, hturn⟩ | ⟨_, _, _, hturn | ⟨_, hset, _⟩⟩⟩ :=
      l.turn_cases henabled.2
    . rw [hturn]
      exact ⟨rfl, hready⟩
    . rw [hturn]
      exact ⟨rfl, hready⟩
    . rw [hready] at hset
      contradiction

theorem incoming_of_run {l l' : Loop F} (hready : l.socket.readReady = false)
    (hrun : l.run es = some l') (harrivals : arrivals es = []) (hclose : .close ∉ es)
    : l'.socket.incoming = l.socket.incoming ∧ l'.socket.readReady = false := by
  induction es generalizing l with
  | nil =>
    cases hrun
    exact ⟨rfl, hready⟩
  | cons e es ih =>
    obtain ⟨l₁, hstep, hrun⟩ := exists_step_of_run hrun
    rw [← List.singleton_append, arrivals_append, List.append_eq_nil_iff] at harrivals
    rw [List.mem_cons, not_or] at hclose
    obtain ⟨hincoming, hready⟩ := incoming_of_step hready hstep harrivals.1 (Ne.symm hclose.1)
    rw [← hincoming]
    exact ih hready hrun harrivals.2 hclose.2

/-- A waiting loop that is not paused reads what is there, unless its readiness has been cleared in
a pause since the last arrival. Then what is there stays there, whatever the loop does, until
something else comes or the stream ends. -/
theorem readReady_eq_not_noticed (maxParallel : Nat) (es : List (Event F)) (l : Loop F)
    (hrun : (new maxParallel).run es = some l) (hwaiting : l.isWaiting = true)
    (hpaused : l.server.isPaused = false) (hinput : l.HasInput)
    : l.socket.readReady = !noticed es
        ∧ (∀ answer : Answer,
            l.enabled (.readable answer) = (!noticed es && answer.isSome))
        ∧ (noticed es = true → ∀ (es' : List (Event F)) (l' : Loop F),
            l.run es' = some l' → arrivals es' = [] → .close ∉ es' →
              l'.socket.incoming = l.socket.incoming ∧ l'.socket.readReady = false) := by
  have hready := run_readyIs maxParallel hrun (isEnded_of_isWaiting hwaiting) hinput
  refine ⟨hready, ?_, ?_⟩
  . intro answer
    simp only [enabled, hwaiting, hpaused, hready, Bool.true_and, Bool.not_false]
  . intro hnoticed es' l' hrun' harrivals hclose
    rw [hnoticed] at hready
    exact incoming_of_run hready hrun' harrivals hclose

-- A frame that a receive ends with, since a descriptor comes with it.
def ownFrame : Segment Unit :=
  ⟨[27, 0, 0, 0, 1] ++ List.replicate 26 0, [()]⟩

-- Five of six frames are read before reading pauses. The first one is answered and the second one
-- started, which ends the pause with the sixth one still in the channel.
def leftBehind : List (Event Unit) :=
  List.replicate 6 (.arrival ownFrame)
    ++ (List.replicate 5 [.turn (.ok readChunk), .readable (.ok readChunk)]).flatten
    ++ [.turn (.ok readChunk), .noticePaused, .turn (.ok readChunk), .verdict 0 (.failed ""),
        .respond, .turn (.ok readChunk)]

theorem exists_run_leftBehind
    : ∃ l : Loop Unit,
        (new 1).run leftBehind = some l
          ∧ l.isWaiting = true
          ∧ l.server.isPaused = false
          ∧ l.socket.incoming.segments = [ownFrame]
          ∧ l.socket.readReady = false := by
  have h : ((new 1).run leftBehind).any (fun l =>
      l.isWaiting && !l.server.isPaused && l.socket.incoming.segments = [ownFrame]
        && !l.socket.readReady) = true := by
    decide +kernel
  obtain ⟨l, hrun, hl⟩ := Option.any_eq_true _ _ |>.mp h
  simp only [Bool.and_eq_true, Bool.not_eq_true', decide_eq_true_eq] at hl
  exact ⟨l, hrun, hl.1.1.1, hl.1.1.2, hl.1.2, hl.2⟩

theorem not_readReady_of_input
    : ¬ ∀ (maxParallel : Nat) (es : List (Event Unit)) (l : Loop Unit),
        (new maxParallel).run es = some l → l.isWaiting = true → l.server.isPaused = false →
          l.socket.incoming.segments ≠ [] → l.socket.readReady = true := by
  intro h
  obtain ⟨l, hrun, hwaiting, hpaused, hsegments, hready⟩ := exists_run_leftBehind
  have := h 1 leftBehind l hrun hwaiting hpaused (by rw [hsegments]; simp)
  rw [hready] at this
  contradiction

theorem readReady_eq_not_noticed_of_leftBehind
    : ∃ l : Loop Unit,
        (new 1).run leftBehind = some l
          ∧ l.isWaiting = true
          ∧ l.server.isPaused = false
          ∧ l.HasInput
          ∧ l.socket.readReady = false
          ∧ noticed leftBehind = true
          ∧ ∀ (es' : List (Event Unit)) (l' : Loop Unit),
              l.run es' = some l' → arrivals es' = [] → .close ∉ es' →
                l'.socket.incoming = l.socket.incoming ∧ l'.socket.readReady = false := by
  obtain ⟨l, hrun, hwaiting, hpaused, hsegments, hready⟩ := exists_run_leftBehind
  have hinput : l.HasInput := .inl (by rw [hsegments]; simp)
  obtain ⟨_, _, hstays⟩ := readReady_eq_not_noticed 1 leftBehind l hrun hwaiting hpaused hinput
  exact ⟨l, hrun, hwaiting, hpaused, hinput, hready, rfl, hstays rfl⟩

end Enclosure.Supervisor.Loop
