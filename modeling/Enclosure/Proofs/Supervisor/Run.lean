import Enclosure.Proofs.Channel
import Enclosure.Proofs.Supervisor.Start
import Enclosure.Supervisor.Loop

/-!
This module contains the histories of runs: what has arrived, which requests have been started and
to which verdicts their tasks have come, together with what each event does to a loop.
-/

namespace Enclosure.Supervisor.Loop

def arrivals (es : List (Event F)) : List (Segment F) :=
  es.filterMap fun
    | .arrival segment => some segment
    | _ => none

def verdictOf (es : List (Event F)) (id : Nat) : Option Verdict :=
  es.findSome? fun
    | .verdict i v => if i = id then some v else none
    | _ => none

def startedBy (l l' : Loop F) : List (Request F) :=
  (l'.server.inFlight.drop l.server.inFlight.length).map Task.request

def started (l : Loop F) : List (Event F) → List (Request F)
  | [] => []
  | e :: es =>
    match l.step e with
    | none => []
    | some l' => l.startedBy l' ++ l'.started es

def isEnded (l : Loop F) : Bool :=
  match l.phase with
  | .ended _ => true
  | _ => false

theorem phase_of_isWaiting {l : Loop F} (h : l.isWaiting = true) : l.phase = .waiting := by
  unfold isWaiting at h
  split at h
  . next hphase => exact hphase
  . contradiction

theorem isEnded_of_isWaiting {l : Loop F} (h : l.isWaiting = true) : l.isEnded = false := by
  unfold isEnded
  rw [phase_of_isWaiting h]

theorem isEnded_of_isTop {l : Loop F} (h : l.isTop = true) : l.isEnded = false := by
  unfold isTop at h
  unfold isEnded
  split at h
  . next hphase => rw [hphase]
  . contradiction

theorem startedBy_eq_nil {l l' : Loop F}
    (h : l'.server.inFlight.length ≤ l.server.inFlight.length)
    : l.startedBy l' = [] := by
  unfold startedBy
  rw [List.drop_of_length_le h]
  rfl

theorem startedBy_of_starts {l l' : Loop F} (h : l.server.Starts rs s)
    (h' : l'.server.inFlight = s.inFlight)
    : l.startedBy l' = rs := by
  unfold startedBy
  rw [h', h.eq]
  dsimp only
  rw [List.drop_left, map_request_tasksFrom]

theorem arrivals_append (es es' : List (Event F))
    : arrivals (es ++ es') = arrivals es ++ arrivals es' := by
  unfold arrivals
  rw [List.filterMap_append]

theorem verdictOf_append (es es' : List (Event F)) (id : Nat)
    : verdictOf (es ++ es') id = (verdictOf es id).or (verdictOf es' id) := by
  unfold verdictOf
  rw [List.findSome?_append]

theorem verdictOf_concat (es : List (Event F)) (id : Nat) (v : Verdict) (i : Nat)
    : verdictOf (es ++ [.verdict id v]) i
        =
      (verdictOf es i).or (if id = i then some v else none) := by
  rw [verdictOf_append]
  by_cases h : id = i
  . simp [verdictOf, h]
  . simp [verdictOf, h]

theorem run_cons (l : Loop F) (e : Event F) (es : List (Event F))
    : l.run (e :: es) = (l.step e).bind (·.run es) := rfl

theorem started_cons {l l' : Loop F} (h : l.step e = some l') (es : List (Event F))
    : l.started (e :: es) = l.startedBy l' ++ l'.started es := by
  rw [started, h]

theorem run_append (l : Loop F) (es es' : List (Event F))
    : l.run (es ++ es') = (l.run es).bind (·.run es') := by
  induction es generalizing l with
  | nil => rfl
  | cons e es ih =>
    rw [List.cons_append, run_cons, run_cons]
    cases l.step e with
    | none => rfl
    | some l' => exact ih l'

theorem exists_step_of_run {l l' : Loop F} (h : l.run (e :: es) = some l')
    : ∃ l₁, l.step e = some l₁ ∧ l₁.run es = some l' := by
  rw [run_cons, Option.bind_eq_some_iff] at h
  exact h

theorem started_append {l l' : Loop F} (h : l.run es = some l') (es' : List (Event F))
    : l.started (es ++ es') = l.started es ++ l'.started es' := by
  induction es generalizing l with
  | nil =>
    cases h
    rfl
  | cons e es ih =>
    obtain ⟨l₁, hstep, hrun⟩ := exists_step_of_run h
    rw [List.cons_append, started_cons hstep, started_cons hstep, ih hrun, List.append_assoc]

-- What holds before the first event and is kept by every event holds after every run. The history
-- of a run grows with it.
theorem run_induction {P : List (Event F) → List (Request F) → Loop F → Prop} {l₀ : Loop F}
    (start : P [] [] l₀)
    (step : ∀ es rs l e l',
      P es rs l → l.step e = some l' → P (es ++ [e]) (rs ++ l.startedBy l') l')
    (h : l₀.run es = some l)
    : P es (l₀.started es) l := by
  -- The events that have happened before are part of the induction.
  suffices ∀ past rs l₁,
      P past rs l₁ → l₁.run es = some l → P (past ++ es) (rs ++ l₁.started es) l from
    this [] [] l₀ start h
  clear h start
  induction es with
  | nil =>
    intro past rs l₁ hP hrun
    cases hrun
    rw [started, List.append_nil, List.append_nil]
    exact hP
  | cons e es ih =>
    intro past rs l₁ hP hrun
    obtain ⟨l₂, hstep, hrun⟩ := exists_step_of_run hrun
    have := ih _ _ l₂ (step past rs l₁ e l₂ hP hstep) hrun
    rw [started_cons hstep, ← List.append_assoc, List.append_cons]
    exact this

theorem step_eq_some_iff {l l' : Loop F}
    : l.step e = some l' ↔ l.enabled e = true ∧ l.apply e = l' := by
  unfold step
  split
  . next h => simp [h]
  . next h => simp [h]

theorem read_cases (l : Loop F) {answer : Answer} (h : answer.isSome = true) (onNothing : Phase)
    : l.read answer onNothing = l.finish
        ∨ (∃ segments fault,
            l.read answer onNothing
              = { l with
                  socket := { l.socket with incoming := { l.socket.incoming with segments } }
                }.fail (.io fault))
        ∨ ((l.socket.incoming.segments = [] ∧ l.socket.incoming.closed = false)
            ∧ l.read answer onNothing
              = { l with socket := { l.socket with readReady := false }, phase := onNothing })
        ∨ ∃ n bytes descriptors segments,
            (0 < n ∧ n ≤ readChunk)
              ∧ Channel.takeFrom n l.socket.incoming.segments = (bytes, descriptors, segments)
              ∧ l.read answer onNothing
                = { l with
                    server := l.server.receive bytes descriptors
                    socket := { l.socket with incoming := { l.socket.incoming with segments } }
                    phase := .top } := by
  cases answer with
  | error fault => exact .inr (.inl ⟨l.socket.incoming.segments, fault, rfl⟩)
  | ok n =>
    have hn : 0 < n := by simpa [Answer.isSome] using h
    change l.receive n onNothing = _ ∨ (∃ _ _, l.receive n onNothing = _)
      ∨ (_ ∧ l.receive n onNothing = _) ∨ ∃ _ _ _ _, _ ∧ _ ∧ l.receive n onNothing = _
    unfold receive
    split
    . exact .inl rfl
    . next bytes descriptors incoming _ hreceive =>
      obtain ⟨segments, htake, rfl⟩ := Channel.takeFrom_of_receive hreceive
      have : 0 < min readChunk n := Nat.lt_min.mpr ⟨by decide, hn⟩
      exact .inr (.inr (.inr
        ⟨_, bytes, descriptors, segments, ⟨this, Nat.min_le_left _ _⟩, htake, rfl⟩))
    . next hreceive =>
      exact .inr (.inr (.inl ⟨Channel.empty_of_receive_again hreceive, rfl⟩))
    . next fault incoming _ hreceive =>
      obtain ⟨segments, heq⟩ := l.socket.incoming.receive_eq (min readChunk n)
      rw [hreceive] at heq
      cases heq
      exact .inr (.inl ⟨segments, fault, rfl⟩)

theorem inFlight_read (l : Loop F) {answer : Answer} (h : answer.isSome = true) (onNothing : Phase)
    : (l.read answer onNothing).server.inFlight = l.server.inFlight := by
  obtain h | ⟨_, _, h⟩ | ⟨_, h⟩ | ⟨_, _, _, _, _, _, h⟩ := l.read_cases h onNothing
  all_goals
    exact congrArg (fun l => l.server.inFlight) h

theorem respond_cases (l : Loop F)
    : l.respond = l
        ∨ ∃ id r v inFlight,
            l.server.inFlight = ⟨id, r, some v⟩ :: inFlight
              ∧ ((∃ e,
                    v.encode = .error e
                      ∧ l.respond
                        = { l with server := { l.server with inFlight } }.fail (.frame e))
                  ∨ ∃ frame,
                      v.encode = .ok frame
                        ∧ l.respond
                          = { l with
                              server :=
                                { l.server with inFlight, outbuf := l.server.outbuf ++ frame }
                              phase := .top }) := by
  unfold Loop.respond Server.respond
  split
  . next hrespond =>
    right
    split at hrespond
    . next id r v inFlight hflight =>
      refine ⟨id, r, v, inFlight, hflight, .inl ?_⟩
      split at hrespond
      . next hencode =>
        cases hrespond
        exact ⟨_, hencode, rfl⟩
      . simp at hrespond
    . simp at hrespond
  . next hrespond =>
    right
    split at hrespond
    . next id r v inFlight hflight =>
      refine ⟨id, r, v, inFlight, hflight, .inr ?_⟩
      split at hrespond
      . simp at hrespond
      . next hencode =>
        cases hrespond
        exact ⟨_, hencode, rfl⟩
    . simp at hrespond
  . exact .inl rfl

theorem startedBy_eq_nil_of_step {l l' : Loop F} (h : l.step e = some l')
    (he : ∀ answer, e ≠ .turn answer)
    : l.startedBy l' = [] := by
  obtain ⟨henabled, rfl⟩ := step_eq_some_iff.mp h
  apply startedBy_eq_nil
  cases e with
  | arrival | close => apply Nat.le_refl
  | verdict id v => simp [apply, Server.finishTask]
  | noticePaused =>
    change l.noticePaused.server.inFlight.length ≤ _
    unfold noticePaused
    split <;> apply Nat.le_refl
  | readable answer =>
    simp only [enabled, Bool.and_eq_true] at henabled
    exact Nat.le_of_eq (congrArg List.length (l.inFlight_read henabled.2 .top))
  | writable answer => cases answer <;> apply Nat.le_refl
  | respond =>
    change l.respond.server.inFlight.length ≤ l.server.inFlight.length
    obtain h | ⟨_, _, _, inFlight, hflight, ⟨_, _, h⟩ | ⟨_, _, h⟩⟩ := l.respond_cases
    . exact Nat.le_of_eq (congrArg (fun l => l.server.inFlight.length) h)
    . rw [h, hflight]
      apply Nat.le_succ
    . rw [h, hflight]
      apply Nat.le_succ
  | turn answer => exact absurd rfl (he answer)

theorem closed_read (l : Loop F) {answer : Answer} (h : answer.isSome = true) (onNothing : Phase)
    : (l.read answer onNothing).socket.incoming.closed = l.socket.incoming.closed := by
  obtain h | ⟨_, _, h⟩ | ⟨_, h⟩ | ⟨_, _, _, _, _, _, h⟩ := l.read_cases h onNothing
  all_goals
    exact congrArg (fun l => l.socket.incoming.closed) h

theorem turn_cases (l : Loop F) {answer : Answer} (h : answer.isSome = true)
    : ∃ rs s,
        l.server.Starts rs s
          ∧ l.startedBy (l.turn answer) = rs
          ∧ rs.length ≤ l.server.maxParallel - l.server.inFlight.length
          ∧ ((∃ e descriptors,
                l.server.startBuffered.2 = some e
                  ∧ s.Malformed e
                  ∧ l.turn answer = { l with server := { s with descriptors } }.fail (.frame e))
              ∨ l.server.startBuffered.2 = none
                ∧ (rs.length = l.server.maxParallel - l.server.inFlight.length ∨ s.NoFrame)
                ∧ ∃ unreadInput,
                    l.turn answer = { l with server := { s with unreadInput }, phase := .waiting }
                      ∨ s.isPaused = false
                        ∧ l.socket.readReady = true
                        ∧ l.turn answer
                          = { l with server := { s with unreadInput } }.read answer .waiting) := by
  obtain ⟨rs, s, hstarts, hroom, hres⟩ := l.server.startBuffered_starts
  cases hres with
  | inl hres =>
    obtain ⟨hbuffered, hfront⟩ := hres
    have hturn : ∃ unreadInput,
        l.turn answer = { l with server := { s with unreadInput }, phase := .waiting }
          ∨ s.isPaused = false
            ∧ l.socket.readReady = true
            ∧ l.turn answer
              = { l with server := { s with unreadInput } }.read answer .waiting := by
      unfold turn
      simp only [hbuffered]
      split
      . next hunread =>
        simp only [Bool.and_eq_true, Bool.not_eq_true'] at hunread
        split
        . next hready => exact ⟨false, .inr ⟨hunread.1, hready, rfl⟩⟩
        . exact ⟨false, .inl rfl⟩
      . exact ⟨s.unreadInput, .inl rfl⟩
    refine ⟨rs, s, hstarts, startedBy_of_starts hstarts ?_, hroom,
      .inr ⟨by rw [hbuffered], hfront, hturn⟩⟩
    obtain ⟨unreadInput, hturn | ⟨_, _, hturn⟩⟩ := hturn
    . rw [hturn]
    . rw [hturn, inFlight_read _ h]
  | inr hres =>
    obtain ⟨e, descriptors, hbuffered, hmalformed⟩ := hres
    have hturn : l.turn answer = { l with server := { s with descriptors } }.fail (.frame e) := by
      unfold turn
      simp only [hbuffered]
    refine ⟨rs, s, hstarts, startedBy_of_starts hstarts ?_, hroom,
      .inl ⟨e, descriptors, by rw [hbuffered], hmalformed, hturn⟩⟩
    rw [hturn]
    rfl

theorem closed_of_step {l l' : Loop F} (h : l.step e = some l') (he : e ≠ .close)
    : l'.socket.incoming.closed = l.socket.incoming.closed := by
  obtain ⟨henabled, rfl⟩ := step_eq_some_iff.mp h
  cases e with
  | arrival | verdict => rfl
  | close => exact absurd rfl he
  | noticePaused =>
    change l.noticePaused.socket.incoming.closed = _
    unfold noticePaused
    split <;> rfl
  | readable answer =>
    simp only [enabled, Bool.and_eq_true] at henabled
    exact l.closed_read henabled.2 .top
  | writable answer => cases answer <;> rfl
  | respond =>
    obtain h | ⟨_, _, _, _, _, ⟨_, _, h⟩ | ⟨_, _, h⟩⟩ := l.respond_cases
    all_goals
      exact congrArg (fun l => l.socket.incoming.closed) h
  | turn answer =>
    simp only [enabled, Bool.and_eq_true] at henabled
    obtain ⟨rs, s, _, _, _, ⟨_, _, _, _, h⟩ | ⟨_, _, _, h | ⟨_, _, h⟩⟩⟩ := l.turn_cases henabled.2
    . exact congrArg (fun l => l.socket.incoming.closed) h
    . exact congrArg (fun l => l.socket.incoming.closed) h
    . apply (congrArg (fun l => l.socket.incoming.closed) h).trans
      exact closed_read _ henabled.2 .waiting

theorem closed_of_run {l l' : Loop F} (h : l.run es = some l') (hes : .close ∉ es)
    : l'.socket.incoming.closed = l.socket.incoming.closed := by
  induction es generalizing l with
  | nil =>
    cases h
    rfl
  | cons e es ih =>
    rw [List.mem_cons, not_or] at hes
    obtain ⟨l₁, hstep, hrun⟩ := exists_step_of_run h
    rw [ih hrun hes.2, closed_of_step hstep (Ne.symm hes.1)]

end Enclosure.Supervisor.Loop
