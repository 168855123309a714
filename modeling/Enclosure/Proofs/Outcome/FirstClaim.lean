import Enclosure.Proofs.Outcome.Race

/-!
This module contains what the processes of an enclosure learn of each other through one page. The
first call that claims the page decides the outcome, which is seen whole or not at all, however the
accesses are mixed and wherever a process dies. The same holds for the start.
-/

namespace Enclosure.Outcome

open Page

section Outcome

def outcomeTopic : Topic where
  cells := Cell.tellsOutcome
  Clear p := p.progress = .free
  Hides p := p.progress = .claimed
  before := Call.reading? none
  Contends c := c.outcome?.isSome
  clear_congr h hp := (h .progress rfl).trans hp
  hides_congr h hp := (h .progress rfl).trans hp
  step_before h hp := step_program_of_hidden h hp

variable {w : Call} {o : Outcome}

theorem program_of_contends (h : w.outcome? = some o)
    : w.program = .publishing w.outcomeStores := by
  cases w with
  | writeStatus | writeMessage => rfl
  | _ => contradiction

theorem mem_of_left {front made left : List Store} {s last : Store}
    (h : front ++ [last] = made ++ s :: left) (hleft : left ≠ [])
    : s ∈ front := by
  obtain ⟨left, last', rfl⟩ := List.eq_nil_or_concat left |>.resolve_left hleft
  rw [List.concat_eq_append, ← List.cons_append, ← List.append_assoc] at h
  rw [(List.append_inj' h rfl).1]
  simp

theorem progress_store_of_left {made left : List Store} {s : Store} {p : Page}
    (hstores : w.outcomeStores = made ++ s :: left) (hleft : left ≠ []) (h : w.outcome? = some o)
    : (p.store s).progress = p.progress := by
  obtain ⟨front, heq, hfront⟩ := outcomeStores_eq h
  apply p.load_store_of_ne (c := .progress)
  exact hfront s (mem_of_left (heq ▸ hstores) hleft)

theorem refused_of_claimed {p : Page} (h : w.outcome?.isSome) (hp : p.progress ≠ .free)
    : w.program.step p = (.done (.written false), p) := by
  obtain ⟨o, ho⟩ := Option.isSome_iff_exists.mp h
  rw [program_of_contends ho, Program.publishing, step_claim, if_neg hp]

def publication (h : w.outcome? = some o) : Report outcomeTopic where
  call := w
  stores := w.outcomeStores
  answer := .written true
  after := Call.reading? o
  orderly := orderly_outcomeStores w
  cells_of_mem _ hs := tellsOutcome_of_mem hs
  hides_store hstores hleft hp := (progress_store_of_left hstores hleft h).trans hp
  after_of_before {c} hc := by
    cases c with
    | outcome | hasMessage => exact ⟨_, rfl⟩
    | _ => contradiction
  yields_after hc := yields_of_reading? h hc
  refuses {c p} hc hp := by
    apply refused_of_claimed hc
    obtain hp | hp := hp
    . intro hfree
      have hclaimed : p.progress = .claimed := hp
      rw [hfree] at hclaimed
      contradiction
    . intro hfree
      exact visibleAs_ne_free h ((ShowsOutcome.load_progress hp h).symm.trans hfree)

theorem admits_outcomeTopic (e : Race.Event) : outcomeTopic.Admits e := by
  intro c _
  cases c with
  | outcome | hasMessage => exact .asks rfl
  | writeStatus | writeMessage => exact .waits rfl
  | _ => exact .aside rfl nofun (avoids_tellsOutcome rfl)

def Decided (r : Race) : Prop :=
  outcomeTopic.Unmade r ∨
    ∃ (w : Call) (o : Outcome) (h : w.outcome? = some o) (k : Nat) (left : List Store),
      (publication h).MadeBy k left r

theorem madeBy_of_claims {r r' : Race} (h : outcomeTopic.Unmade r)
    (hclaims : outcomeTopic.Claims r r')
    : ∃ (w : Call) (o : Outcome) (h : w.outcome? = some o) (k : Nat),
        (publication h).MadeBy k w.outcomeStores r' := by
  obtain ⟨k, w, hw, hcurrent, hpage, hnew, hold⟩ := hclaims
  obtain ⟨o, ho⟩ := Option.isSome_iff_exists.mp hw
  have hstep : w.program.step r.page
      = (.storing w.outcomeStores (.written true), r.page.store (.progress .claimed)) := by
    have hfree : r.page.progress = .free := h.clear
    rw [program_of_contends ho, Program.publishing, step_claim, if_pos hfree]
  rw [hstep] at hpage hnew
  refine ⟨w, o, ho, k, ?_, hnew, .refl _ _, ?_, ?_⟩
  . rw [hpage, length_message_store, h.size]
  . intro _
    rw [hpage]
    rfl
  . intro i c rest hi hc
    rw [hold i hi] at hc
    exact .idle (h.idle i c rest hc)

theorem Decided.step {r : Race} (h : Decided r) (e : Race.Event) : Decided (r.step e) := by
  obtain h | ⟨w, o, hw, k, left, h⟩ := h
  . obtain h | hclaims := h.step (admits_outcomeTopic e)
    . exact .inl h
    . obtain ⟨w, o, hw, k, h⟩ := madeBy_of_claims h hclaims
      exact .inr ⟨w, o, hw, k, _, h⟩
  . obtain ⟨left', h, _⟩ := h.step (admits_outcomeTopic e)
    exact .inr ⟨w, o, hw, k, left', h⟩

theorem unmade_empty (T : Topic) (h : T.Clear {}) : T.Unmade {} := by
  refine ⟨List.length_replicate, h, ?_⟩
  intro i c rest hc
  contradiction

theorem decided_run (es : List Race.Event) : Decided (Race.run {} es) :=
  Race.run_induction (fun _ e h => h.step e) (.inl (unmade_empty outcomeTopic rfl)) es

theorem reading?_of_isSome {c : Call} (h : (c.reading? none).isSome) (o : Outcome)
    : ∃ a, c.reading? o = some a := by
  cases c with
  | outcome | hasMessage => exact ⟨_, rfl⟩
  | _ => contradiction

theorem reading?_eq_none {c : Call} (h : c.outcome?.isSome) (o : Outcome)
    : c.reading? o = .none := by
  cases c with
  | writeStatus | writeMessage => rfl
  | _ => contradiction

structure DecidedBy (k : Nat) (o : Outcome) (r : Race) : Prop where
  wanted : o ≠ none → ∃ w stage, r.activities[k]? = some ⟨w, stage⟩ ∧ w.outcome? = some o
  written : ∀ i w a, r.Returned i w a → w.outcome?.isSome →
    a = .written false ∨ (a = .written true ∧ i = k ∧ o ≠ none)
  read : ∀ i c a, r.Returned i c a → (c.reading? none).isSome →
    c.reading? none = some a ∨ c.reading? o = some a

structure Lost (r : Race) : Prop where
  written : ∀ i w a, r.Returned i w a → w.outcome?.isSome →
    a = .written false
  read : ∀ i c a, r.Returned i c a → (c.reading? none).isSome →
    c.reading? none = some a
  refuses : ∀ w : Call, w.outcome?.isSome → w.program.run r.page = (.written false, r.page)
  hides : ∀ (c : Call) (a : Answer), c.reading? none = some a → c.program.run r.page = (a, r.page)

variable {r : Race} {k : Nat} {left : List Store}

theorem read_of_madeBy {h : w.outcome? = some o} (hmade : (publication h).MadeBy k left r)
    {i : Nat} {c : Call} {a : Answer} (hreturned : r.Returned i c a)
    (hc : (c.reading? none).isSome)
    : c.reading? none = some a ∨ (left = [] ∧ c.reading? o = some a) := by
  have hremaining := hreturned.remaining
  have hcontends : ¬ c.outcome?.isSome := by
    intro h
    rw [reading?_eq_none h] at hc
    contradiction
  refine hmade.before_or_after hremaining ?_ hc hcontends
  intro hi
  rw [hi, hmade.call] at hremaining
  have hcall : w = c := congrArg Prod.fst (Option.some.inj hremaining)
  rw [← hcall, h] at hcontends
  exact hcontends rfl

theorem written_of_madeBy {h : w.outcome? = some o} (hmade : (publication h).MadeBy k left r)
    {i : Nat} {c : Call} {a : Answer} (hreturned : r.Returned i c a) (hc : c.outcome?.isSome)
    : a = .written false ∨ (a = .written true ∧ i = k ∧ left = []) := by
  have hremaining := hreturned.remaining
  by_cases hi : i = k
  . rw [hi, hmade.call] at hremaining
    cases left with
    | nil =>
      cases hremaining
      exact .inr ⟨rfl, hi, rfl⟩
    | cons s left => exact absurd hremaining nofun
  . exact .inl (hmade.written_false hremaining hi hc (reading?_eq_none hc none)
      (reading?_eq_none hc o))

theorem Decided.decidedBy (h : Decided r) : ∃ k o, DecidedBy k o r := by
  obtain h | ⟨w, o, hw, k, left, h⟩ := h
  . refine ⟨0, none, fun hne => absurd rfl hne, ?_, ?_⟩
    . intro i w a hreturned hw
      have hidle := h.idle i w _ hreturned.remaining
      exact absurd hw (hidle.not_contends (reading?_eq_none hw none))
    . intro i c a hreturned hc
      exact .inl ((h.idle i c _ hreturned.remaining).before_eq hc)
  . have hne : o ≠ none := by
      intro ho
      rw [ho] at hw
      cases w <;> cases hw
    refine ⟨k, o, ?_, ?_, ?_⟩
    . intro _
      obtain ⟨⟨c, stage⟩, hactivity, hcall⟩ := Option.map_eq_some_iff.mp h.call
      have hcall : c = w := congrArg Prod.fst hcall
      rw [hcall] at hactivity
      exact ⟨w, stage, hactivity, hw⟩
    . intro i c a hreturned hc
      obtain ha | ⟨ha, hi, _⟩ := written_of_madeBy h hreturned hc
      . exact .inl ha
      . exact .inr ⟨ha, hi, hne⟩
    . intro i c a hreturned hc
      obtain ha | ⟨_, ha⟩ := read_of_madeBy h hreturned hc
      . exact .inl ha
      . exact .inr ha

theorem Decided.complete (h : Decided r) {i : Nat} (ho : o ≠ none)
    (hreturned : r.Returned i .outcome (.outcome o))
    : ∃ (w : Call) (h : w.outcome? = some o) (k : Nat), (publication h).MadeBy k [] r := by
  obtain h | ⟨w, o', hw, k, left, h⟩ := h
  . have hidle := h.idle i _ _ hreturned.remaining
    cases hidle.before_eq rfl
    contradiction
  . obtain ha | ⟨rfl, ha⟩ := read_of_madeBy h hreturned rfl
    . cases ha
      contradiction
    . cases ha
      exact ⟨w, hw, k, h⟩

theorem Decided.incomplete (h : Decided r) {s : Store} {next : Program} (hw : w.outcome?.isSome)
    (hremaining : r.remaining k = some (w, .store s next))
    : ∃ (o : Outcome) (h : w.outcome? = some o) (left : List Store),
        (publication h).MadeBy k left r := by
  have hidle : ¬ outcomeTopic.Idle w (.store s next) := by
    generalize hrest : Program.store s next = rest
    intro h
    cases h with
    | early => contradiction
    | aside _ hcontends => exact hcontends hw
    | asks | waits =>
      obtain ⟨o, ho⟩ := Option.isSome_iff_exists.mp hw
      rw [program_of_contends ho] at hrest
      contradiction
  obtain h | ⟨w', o, hw', k', left, h⟩ := h
  . exact absurd (h.idle k w _ hremaining) hidle
  . by_cases hk : k = k'
    . have hcall := h.call
      rw [← hk, hremaining] at hcall
      have hcall : w = w' := congrArg Prod.fst (Option.some.inj hcall)
      subst hk hcall
      exact ⟨o, hw', left, h⟩
    . have hstands := h.others k w _ hk hremaining
      generalize hrest : Program.store s next = rest at hstands
      cases hstands with
      | idle h =>
        rw [← hrest] at h
        exact absurd h hidle
      | refused => contradiction
      | informed _ h =>
        have hnone := reading?_eq_none hw o
        exact absurd (h.symm.trans hnone) nofun

theorem run_of_step {rest : Program} {p q : Page} {a : Answer} (h : rest.step p = (.done a, q))
    : rest.run p = (a, q) := by
  cases rest with
  | done b =>
    cases h
    rfl
  | claim next =>
    unfold Program.step at h
    unfold Program.run
    cases hclaim : p.claim with
    | none | some =>
      rw [hclaim] at h
      obtain ⟨hrest, rfl⟩ := Prod.mk.inj h
      dsimp only
      rw [hrest]
      rfl
  | store | load =>
    obtain ⟨hrest, rfl⟩ := Prod.mk.inj h
    unfold Program.run
    rw [hrest]
    rfl

theorem lost_of_madeBy {h : w.outcome? = some o} (hmade : (publication h).MadeBy k left r)
    (hleft : left ≠ [])
    : Lost r := by
  have hclaimed : r.page.progress = .claimed := hmade.hides hleft
  have hne : r.page.progress ≠ .free := by
    rw [hclaimed]
    exact nofun
  constructor
  case written =>
    intro i c a hreturned hc
    exact (written_of_madeBy hmade hreturned hc).resolve_right fun h => hleft h.2.2
  case read =>
    intro i c a hreturned hc
    exact (read_of_madeBy hmade hreturned hc).resolve_right fun h => hleft h.1
  case refuses => exact fun c hc => run_of_step (refused_of_claimed hc hne)
  case hides => exact fun c a hc => run_of_step (step_program_of_hidden hc (.inr hclaimed))

theorem lost_of_died {s : Store} {next : Program} (h : Decided r)
    (hdied : r.Died k w (.store s next)) (hw : w.outcome?.isSome)
    (es : List Race.Event)
    : Lost (r.run es) := by
  obtain ⟨o, ho, left, hmade⟩ := h.incomplete hw hdied.remaining
  have hadmits : ∀ e ∈ es, outcomeTopic.Admits e := fun e _ => admits_outcomeTopic e
  obtain ⟨left', hmade, _⟩ := hmade.run hadmits
  refine lost_of_madeBy hmade ?_
  rintro rfl
  have hcall := hmade.call
  rw [(hdied.run es).remaining] at hcall
  cases hcall

theorem read_of_complete {h : w.outcome? = some o} (hmade : (publication h).MadeBy k [] r)
    (es : List Race.Event) {i : Nat} {c : Call} {a : Answer} (hi : r.activities.length ≤ i)
    (hreturned : (r.run es).Returned i c a) (hc : (c.reading? none).isSome)
    : c.reading? o = some a := by
  obtain ⟨b, hb⟩ := reading?_of_isSome hc o
  have hadmits : ∀ e ∈ es, outcomeTopic.Admits e := fun e _ => admits_outcomeTopic e
  have hinforms := hmade.informs_run (Report.informs_length _ r) hadmits
  have hyields := hinforms i c _ b hi hreturned.remaining hb
  rw [← hyields.eq_of_done, hb]

end Outcome

section Start

def startTopic : Topic where
  cells := Cell.tellsStart
  Clear p := p.startNanos = 0
  Hides p := p.startNanos = 0
  before
    | .start => some (.start .none)
    | _ => .none
  Contends _ := False
  clear_congr h hp := (h .startNanos rfl).trans hp
  hides_congr h hp := (h .startNanos rfl).trans hp
  step_before {c a p} h hp := by
    have hp : p.startNanos = 0 := hp.elim id id
    cases c with
    | start =>
      cases h
      change (if p.startNanos = 0 then _ else _, p) = _
      rw [if_pos hp]
    | _ => contradiction

theorem startNanos_store_of_left {time : Duration} {cpu : CpuTime} {made left : List Store}
    {s : Store} {p : Page} (hstores : startStores time cpu = made ++ s :: left) (hleft : left ≠ [])
    : (p.store s).startNanos = p.startNanos := by
  apply p.load_store_of_ne (c := .startNanos)
  have hs : s ∈ [_, _] := mem_of_left hstores hleft
  simp at hs
  obtain rfl | rfl := hs
  . exact nofun
  . exact nofun

def startReport (time : Duration) (cpu : CpuTime) : Report startTopic where
  call := .recordStart time cpu
  stores := startStores time cpu
  answer := .recorded
  after
    | .start => some (.start (shownStart time cpu))
    | _ => .none
  orderly := orderly_startStores time cpu
  cells_of_mem _ hs := tellsStart_of_mem hs
  hides_store hstores hleft hp := (startNanos_store_of_left hstores hleft).trans hp
  after_of_before {c} hc := by
    cases c with
    | start => exact ⟨_, rfl⟩
    | _ => contradiction
  yields_after {c a} hc := by
    cases c with
    | start =>
      cases hc
      exact yields_loadStart time cpu
    | _ => contradiction
  refuses hc := hc.elim

def Race.Event.recorded? : Race.Event → Option (Duration × CpuTime)
  | .begins (.recordStart time cpu) => some (time, cpu)
  | _ => .none

theorem admits_startTopic {e : Race.Event} (h : e.recorded? = .none) : startTopic.Admits e := by
  rintro c rfl
  cases c with
  | start => exact .asks rfl
  | recordStart => contradiction
  | _ => exact .aside rfl id (avoids_tellsStart nofun)

def Recorded (r : Race) : List (Duration × CpuTime) → Prop
  | [] => startTopic.Unmade r
  | [(time, cpu)] => ∃ k left, (startReport time cpu).MadeBy k left r
  | _ => True

variable {r : Race}

theorem madeBy_of_recorded (h : startTopic.Unmade r) (time : Duration) (cpu : CpuTime)
    : (startReport time cpu).MadeBy r.activities.length (startStores time cpu)
        (r.step (.begins (.recordStart time cpu))) := by
  obtain ⟨hnew, hold⟩ := r.remaining_begins (.recordStart time cpu)
  refine ⟨h.size, hnew, .refl _ _, fun _ => h.clear, ?_⟩
  intro i c rest hi hc
  rw [hold i hi] at hc
  exact .idle (h.idle i c rest hc)

theorem Recorded.step {ms : List (Duration × CpuTime)} (h : Recorded r ms) (e : Race.Event)
    : Recorded (r.step e) (ms ++ e.recorded?.toList) := by
  cases he : e.recorded? with
  | none =>
    rw [Option.toList_none, List.append_nil]
    match ms with
    | [] =>
      have h : startTopic.Unmade r := h
      exact (h.step (admits_startTopic he)).resolve_right fun (.claims _ _ h ..) => h.elim
    | [(time, cpu)] =>
      obtain ⟨k, left, h⟩ := h
      obtain ⟨left', h, _⟩ := h.step (admits_startTopic he)
      exact ⟨k, left', h⟩
    | _ :: _ :: _ => trivial
  | some m =>
    match ms with
    | [] =>
      cases e with
      | begins c =>
        cases c with
        | recordStart time cpu =>
          cases he
          exact ⟨_, _, madeBy_of_recorded h time cpu⟩
        | _ => contradiction
      | _ => contradiction
    | [_] | _ :: _ :: _ => trivial

theorem recorded_run (es : List Race.Event)
    : Recorded (Race.run {} es) (es.filterMap Race.Event.recorded?) := by
  have (r : Race) (ms : List (Duration × CpuTime)) (h : Recorded r ms)
      : Recorded (r.run es) (ms ++ es.filterMap Race.Event.recorded?) := by
    induction es generalizing r ms with
    | nil =>
      rw [List.filterMap_nil, List.append_nil]
      exact h
    | cons e es ih =>
      have hms : (e :: es).filterMap Race.Event.recorded?
          = e.recorded?.toList ++ es.filterMap Race.Event.recorded? := by
        cases he : e.recorded? <;> simp [he]
      rw [hms, ← List.append_assoc]
      exact ih _ _ (h.step e)
  exact this {} [] (unmade_empty startTopic rfl)

theorem Recorded.read {ms : List (Duration × CpuTime)} (h : Recorded r ms) (hone : ms.length ≤ 1)
    (hfits : ∀ m ∈ ms, StartFits m.1 m.2) {i : Nat} {a : Answer} (hreturned : r.Returned i .start a)
    : a = .start .none ∨ ∃ m ∈ ms, a = .start (some (m.1, m.2.floorMicros)) := by
  match ms with
  | [] =>
    have hidle := h.idle i _ _ hreturned.remaining
    cases hidle.before_eq rfl
    exact .inl rfl
  | [(time, cpu)] =>
    obtain ⟨k, left, h⟩ := h
    have hi : i ≠ k := by
      rintro rfl
      have hcall := h.call
      rw [hreturned.remaining] at hcall
      exact absurd (congrArg (Option.map Prod.fst) hcall) nofun
    obtain ha | ⟨_, ha⟩ := h.before_or_after hreturned.remaining hi rfl id
    . cases ha
      exact .inl rfl
    . cases ha
      rw [shownStart_eq (hfits _ List.mem_cons_self)]
      exact .inr ⟨_, List.mem_cons_self, rfl⟩
  | _ :: _ :: _ => simp at hone

end Start

namespace Race

/-- However the accesses of any calls are mixed, one call decides the outcome, and the outcome and
the start are read whole or not at all. -/
theorem read_whole_or_not_at_all (es es' : List Event)
    (hone : ((es ++ es').filterMap Event.recorded?).length ≤ 1)
    (hfits : ∀ m ∈ (es ++ es').filterMap Event.recorded?, StartFits m.1 m.2)
    : (∃ k o, DecidedBy k o (run {} (es ++ es')))
        ∧ (∀ i o, o ≠ none → (run {} es).Returned i .outcome (.outcome o) →
            ∀ j c a, (run {} es).activities.length ≤ j → (run {} (es ++ es')).Returned j c a →
              (c.reading? none).isSome → c.reading? o = some a)
        ∧ (∀ k w s next, w.outcome?.isSome → (run {} es).Died k w (.store s next) →
            Lost (run {} (es ++ es')))
        ∧ ∀ i a, (run {} (es ++ es')).Returned i .start a →
            a = .start .none
              ∨ ∃ m ∈ (es ++ es').filterMap Event.recorded?,
                  a = .start (some (m.1, m.2.floorMicros)) := by
  have hdecided := decided_run es
  have hrun : run {} (es ++ es') = (run {} es).run es' := List.foldl_append
  refine ⟨(decided_run (es ++ es')).decidedBy, ?_, ?_, ?_⟩
  . intro i o ho hfirst j c a hj hreturned hc
    obtain ⟨w, hw, k, hmade⟩ := hdecided.complete ho hfirst
    rw [hrun] at hreturned
    exact read_of_complete hmade es' hj hreturned hc
  . intro k w s next hw hdied
    rw [hrun]
    exact lost_of_died hdecided hdied hw es'
  . intro i a hreturned
    exact (recorded_run (es ++ es')).read hone hfits hreturned

-- A message is published beside a status that comes too late.
def twoWriters : List Event :=
  [.begins (.writeMessage "no"), .begins (.writeStatus ⟨.exited, 0⟩), .goesOn 0, .goesOn 1,
    .goesOn 1]
    ++ .replicate 5 (.goesOn 0) ++ .begins .outcome :: .replicate 5 (.goesOn 2)

-- The call `n` records the start, and the next ones read the start and the outcome.
def recordedThenRead (n : Nat) : List Event :=
  .begins (.recordStart .zero ⟨.ofNanos 1999, .zero⟩) :: .replicate 4 (.goesOn n)
    ++ .begins .start :: .replicate 4 (.goesOn (n + 1))
    ++ .begins .hasMessage :: .replicate 2 (.goesOn (n + 2))

-- A writer dies before it makes its status visible.
def diedWriting : List Event :=
  .begins (.writeStatus ⟨.exited, 0⟩) :: .replicate 3 (.goesOn 0) ++ [.dies 0]

theorem read_whole_or_not_at_all_of_writers
    : let later := recordedThenRead 3
      ((twoWriters ++ later).filterMap Event.recorded?).length ≤ 1
        ∧ (∀ m ∈ (twoWriters ++ later).filterMap Event.recorded?, StartFits m.1 m.2)
        ∧ (run {} twoWriters).Returned 2 .outcome (.outcome (.failed "no"))
        ∧ Call.hasMessage.reading? (.failed "no") = some (.hasMessage true)
        ∧ Lost (run {} (diedWriting ++ recordedThenRead 1)) := by
  have hone : ((twoWriters ++ recordedThenRead 3).filterMap Event.recorded?).length ≤ 1 := by decide
  have hfits : ∀ m ∈ (twoWriters ++ recordedThenRead 3).filterMap Event.recorded?,
      StartFits m.1 m.2 := by
    unfold StartFits
    decide
  have hfirst : (run {} twoWriters).Returned 2 .outcome (.outcome (.failed "no")) := by rfl
  have hlater : (run {} (twoWriters ++ recordedThenRead 3)).Returned 5 .hasMessage
      (.hasMessage true) := by
    rfl
  have hlength : (run {} twoWriters).activities.length ≤ 5 := by decide
  have hdied : (run {} diedWriting).Died 0 (.writeStatus ⟨.exited, 0⟩)
      (.store (.progress .ended) (.done (.written true))) := by
    rfl
  obtain ⟨_, hread, _⟩ := read_whole_or_not_at_all twoWriters (recordedThenRead 3) hone hfits
  obtain ⟨_, _, hlost, _⟩ := read_whole_or_not_at_all diedWriting (recordedThenRead 1) hone hfits
  exact ⟨hone, hfits, hfirst, hread 2 (.failed "no") nofun hfirst 5 _ _ hlength hlater rfl,
    hlost 0 _ _ _ rfl hdied⟩

theorem not_start_eq_recorded
    : ¬ ∀ es : List Event, (es.filterMap Event.recorded?).length ≤ 1 →
        (∀ m ∈ es.filterMap Event.recorded?, StartFits m.1 m.2) →
        ∀ i a, (run {} es).Returned i .start a →
          a = .start .none ∨ ∃ m ∈ es.filterMap Event.recorded?, a = .start (some m) := by
  intro h
  have hread : (run {} (recordedThenRead 0)).Returned 1 .start
      (.start (some (.zero, ⟨.ofMicros 1, .zero⟩))) := by
    rfl
  have hfits : ∀ m ∈ (recordedThenRead 0).filterMap Event.recorded?, StartFits m.1 m.2 := by
    unfold StartFits
    decide
  obtain h | ⟨m, hm, h⟩ := h (recordedThenRead 0) (by decide) hfits 1 _ hread
  . cases h
  . have hm : m = (.zero, ⟨.ofNanos 1999, .zero⟩) := List.mem_singleton.mp hm
    rw [hm] at h
    revert h
    decide

end Race

end Enclosure.Outcome
