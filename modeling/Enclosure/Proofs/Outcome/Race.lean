import Enclosure.Outcome.Race
import Enclosure.Proofs.Outcome.Call

/-!
This module contains what calls come to that are made on one page at the same time. The first call
that claims the page decides the outcome, and it is seen whole or not at all, however the accesses
are mixed and wherever a process dies.
-/

namespace Enclosure.Outcome

open Page

def Stage.rest : Stage → Program
  | running rest | died rest => rest
  | returned a => .done a

namespace Race

variable {r r' : Race}

def remaining (r : Race) (i : Nat) : Option (Call × Program) :=
  r.activities[i]?.map fun a => (a.call, a.stage.rest)

inductive Moves (r r' : Race) : Prop
  | begins (c : Call) (page : r'.page = r.page)
      (new : r'.remaining r.activities.length = some (c, c.program))
      (old : ∀ i ≠ r.activities.length, r'.remaining i = r.remaining i)
  | rests (page : r'.page = r.page) (old : ∀ i, r'.remaining i = r.remaining i)
  | accesses (i : Nat) (c : Call) (rest : Program) (current : r.remaining i = some (c, rest))
      (page : r'.page = (rest.step r.page).2)
      (new : r'.remaining i = some (c, (rest.step r.page).1))
      (old : ∀ j ≠ i, r'.remaining j = r.remaining j)

theorem remaining_set {a : Activity} {i : Nat} (h : r.activities[i]? = some a) (b : Activity)
    (page : Page)
    : remaining { page, activities := r.activities.set i b } i = some (b.call, b.stage.rest)
        ∧ ∀ j ≠ i, remaining { page, activities := r.activities.set i b } j = r.remaining j := by
  have hi := (List.getElem?_eq_some_iff.mp h).1
  constructor
  . simp [remaining, hi]
  . intro j hj
    simp [remaining, List.getElem?_set_ne hj.symm]

theorem moves_of_set {c : Call} {stage stage' : Stage} {i : Nat}
    (h : r.activities[i]? = some ⟨c, stage⟩) (hrest : stage'.rest = stage.rest)
    : Moves r { r with activities := r.activities.set i ⟨c, stage'⟩ } := by
  obtain ⟨hnew, hold⟩ := remaining_set h ⟨c, stage'⟩ r.page
  refine .rests rfl fun j => ?_
  by_cases hj : j = i
  . rw [hj, hnew, hrest]
    simp [remaining, h]
  . exact hold j hj

theorem remaining_begins (r : Race) (c : Call)
    : (r.step (.begins c)).remaining r.activities.length = some (c, c.program)
        ∧ ∀ i ≠ r.activities.length, (r.step (.begins c)).remaining i = r.remaining i := by
  constructor
  . simp [remaining, step, Stage.rest]
  . intro i hi
    obtain hlt | hgt := Nat.lt_or_gt_of_ne hi
    . simp [remaining, step, List.getElem?_append_left hlt]
    . have hlength : (r.step (.begins c)).activities.length ≤ i := by
        unfold step
        rw [List.length_append]
        exact hgt
      unfold remaining
      rw [List.getElem?_eq_none hlength, List.getElem?_eq_none (Nat.le_of_lt hgt)]

theorem moves_step (r : Race) (e : Event) : Moves r (r.step e) := by
  cases e with
  | begins c =>
    obtain ⟨hnew, hold⟩ := r.remaining_begins c
    exact .begins c rfl hnew hold
  | goesOn i =>
    unfold step
    dsimp only
    split
    . next c a h => exact moves_of_set h rfl
    . next c rest _ h =>
      obtain ⟨hnew, hold⟩ := remaining_set h ⟨c, .running (rest.step r.page).1⟩ (rest.step r.page).2
      refine .accesses i c rest ?_ rfl hnew hold
      rw [remaining, h]
      rfl
    . exact .rests rfl fun _ => rfl
  | dies i =>
    unfold step
    dsimp only
    split
    . next c rest h => exact moves_of_set h rfl
    . exact .rests rfl fun _ => rfl

theorem Moves.size (h : Moves r r') : r'.page.message.length = r.page.message.length := by
  cases h with
  | begins c hpage | rests hpage => rw [hpage]
  | accesses i c rest _ hpage =>
    rw [hpage]
    exact length_message_step rest r.page

theorem run_induction {P : Race → Prop} (step : ∀ r e, P r → P (r.step e)) (h : P r)
    (es : List Event)
    : P (r.run es) := by
  induction es generalizing r with
  | nil => exact h
  | cons e es ih => exact ih (step r e h)

theorem Moves.forall_remaining {Q : Call → Program → Prop} (h : Moves r r')
    (hbegins : ∀ c : Call, Q c c.program)
    (haccess : ∀ c rest, Q c rest → Q c (rest.step r.page).1)
    (hQ : ∀ i c rest, r.remaining i = some (c, rest) → Q c rest)
    : ∀ i c rest, r'.remaining i = some (c, rest) → Q c rest := by
  intro i c rest hc
  cases h with
  | begins c' hpage hnew hold =>
    by_cases hi : i = r.activities.length
    . rw [hi, hnew] at hc
      cases hc
      exact hbegins c
    . rw [hold i hi] at hc
      exact hQ i c rest hc
  | rests hpage hold =>
    rw [hold] at hc
    exact hQ i c rest hc
  | accesses j c' rest' hcurrent hpage hnew hold =>
    by_cases hi : i = j
    . rw [hi, hnew] at hc
      cases hc
      exact haccess c rest' (hQ j c rest' hcurrent)
    . rw [hold i hi] at hc
      exact hQ i c rest hc

theorem Moves.remaining_done {i : Nat} {c : Call} {a : Answer} (h : Moves r r')
    (hi : r.remaining i = some (c, .done a))
    : r'.remaining i = some (c, .done a) := by
  cases h with
  | begins c' hpage hnew hold =>
    obtain ⟨activity, hactivity, _⟩ := Option.map_eq_some_iff.mp hi
    have hlt := (List.getElem?_eq_some_iff.mp hactivity).1
    rw [hold i (Nat.ne_of_lt hlt), hi]
  | rests hpage hold => rw [hold, hi]
  | accesses j c' rest hcurrent hpage hnew hold =>
    by_cases hij : i = j
    . rw [← hij, hi] at hcurrent
      cases hcurrent
      rw [hij, hnew]
      rfl
    . rw [hold i hij, hi]

def Returned (r : Race) (i : Nat) (c : Call) (a : Answer) : Prop :=
  r.activities[i]? = some ⟨c, .returned a⟩

def Died (r : Race) (i : Nat) (c : Call) (rest : Program) : Prop :=
  r.activities[i]? = some ⟨c, .died rest⟩

theorem Returned.remaining {i : Nat} {c : Call} {a : Answer} (h : r.Returned i c a)
    : r.remaining i = some (c, .done a) := by
  rw [Race.remaining, h]
  rfl

theorem Died.remaining {i : Nat} {c : Call} {rest : Program} (h : r.Died i c rest)
    : r.remaining i = some (c, rest) := by
  rw [Race.remaining, h]
  rfl

theorem Died.run {i : Nat} {c : Call} {rest : Program} (h : r.Died i c rest) (es : List Event)
    : (r.run es).Died i c rest := by
  unfold Died at *
  induction es generalizing r with
  | nil => exact h
  | cons e es ih =>
    apply ih
    cases e with
    | begins c' =>
      rw [← h]
      exact List.getElem?_append_left (List.getElem?_eq_some_iff.mp h).1
    | goesOn j | dies j =>
      by_cases hij : j = i
      . rw [hij]
        unfold step
        simp [h]
      . unfold step
        dsimp only
        split <;> simp [List.getElem?_set_ne hij, h]

theorem eq_begins_of_remaining {e : Event} {c : Call} {rest : Program}
    (h : (r.step e).remaining r.activities.length = some (c, rest))
    : e = .begins c := by
  obtain ⟨a, ha, _⟩ := Option.map_eq_some_iff.mp h
  have hlt := (List.getElem?_eq_some_iff.mp ha).1
  cases e with
  | begins c' =>
    simp [remaining, step] at h
    rw [h.1]
  | goesOn i =>
    unfold step at hlt
    dsimp only at hlt
    split at hlt <;> simp at hlt
  | dies i =>
    unfold step at hlt
    dsimp only at hlt
    split at hlt <;> simp at hlt

end Race

/-- Something that one call may report on a page. As long as the page is `Clear`, nobody has begun
to report it, and while it `Hides` a report, readers still answer what they answered `before`. Who
contends claims the page first. -/
structure Topic where
  cells : Cell → Bool
  Clear : Page → Prop
  Hides : Page → Prop
  before : Call → Option Answer
  Contends : Call → Prop
  clear_congr : ∀ {p q : Page}, (∀ c, cells c = true → q.load c = p.load c) → Clear p → Clear q
  hides_congr : ∀ {p q : Page}, (∀ c, cells c = true → q.load c = p.load c) → Hides p → Hides q
  step_before : ∀ {c : Call} {a : Answer} {p : Page},
    before c = some a → Clear p ∨ Hides p → c.program.step p = (.done a, p)

/-- A report by one call, which is hidden until all stores are made. What readers answer `after`
that is then settled. -/
structure Report (T : Topic) where
  call : Call
  stores : List Store
  answer : Answer
  after : Call → Option Answer
  orderly : Store.Orderly stores
  cells_of_mem : ∀ s ∈ stores, T.cells s.cell = true
  hides_store : ∀ {p : Page} {made left : List Store} {s : Store},
    stores = made ++ s :: left → left ≠ [] → T.Hides p → T.Hides (p.store s)
  after_of_before : ∀ {c : Call}, (T.before c).isSome → ∃ a, after c = some a
  yields_after : ∀ {c : Call} {a : Answer},
    after c = some a → Yields (fun p => ∀ s ∈ stores, p.Holds s) c.program a
  refuses : ∀ {c : Call} {p : Page},
    T.Contends c → T.Hides p ∨ (∀ s ∈ stores, p.Holds s) →
      c.program.step p = (.done (.written false), p)

variable {T : Topic} {r r' : Race} {c : Call} {rest : Program} {p : Page}

namespace Topic

inductive Idle (T : Topic) : Call → Program → Prop
  | asks {c : Call} (h : (T.before c).isSome) : Idle T c c.program
  | early {c : Call} {a : Answer} (h : T.before c = some a) : Idle T c (.done a)
  | waits {c : Call} (h : T.Contends c) : Idle T c c.program
  | aside {c : Call} {rest : Program} (h : T.before c = Option.none) (hc : ¬ T.Contends c)
      (hrest : Avoids T.cells rest) : Idle T c rest

variable {a : Answer}

theorem Idle.before_eq (h : T.Idle c (.done a)) (hc : (T.before c).isSome)
    : T.before c = some a := by
  generalize hrest : Program.done a = rest at h
  cases h with
  | early h =>
    cases hrest
    exact h
  | asks | waits => exact absurd hrest.symm (c.program_ne_done a)
  | aside h =>
    rw [h] at hc
    contradiction

theorem Idle.not_contends (h : T.Idle c (.done a)) (hc : T.before c = .none) : ¬ T.Contends c := by
  generalize hrest : Program.done a = rest at h
  cases h with
  | early h =>
    rw [hc] at h
    contradiction
  | asks | waits => exact absurd hrest.symm (c.program_ne_done a)
  | aside _ h => exact h

def Admits (T : Topic) (e : Race.Event) : Prop :=
  ∀ c, e = .begins c → T.Idle c c.program

structure Unmade (T : Topic) (r : Race) : Prop where
  size : r.page.message.length = messageCapacity
  clear : T.Clear r.page
  idle : ∀ i c rest, r.remaining i = some (c, rest) → T.Idle c rest

inductive Claims (T : Topic) (r r' : Race) : Prop
  | claims (i : Nat) (c : Call) (h : T.Contends c) (current : r.remaining i = some (c, c.program))
      (page : r'.page = (c.program.step r.page).2)
      (new : r'.remaining i = some (c, (c.program.step r.page).1))
      (old : ∀ j ≠ i, r'.remaining j = r.remaining j)

theorem Unmade.step (h : T.Unmade r) {e : Race.Event} (he : T.Admits e)
    : T.Unmade (r.step e) ∨ T.Claims r (r.step e) := by
  have hmoves := Race.moves_step r e
  have hsize := hmoves.size.trans h.size
  cases hmoves with
  | rests hpage hold =>
    refine .inl ⟨hsize, ?_, ?_⟩
    . rw [hpage]; exact h.clear
    . intro i c rest hc
      rw [hold] at hc
      exact h.idle i c rest hc
  | begins c hpage hnew hold =>
    refine .inl ⟨hsize, ?_, ?_⟩
    . rw [hpage]; exact h.clear
    . intro i c' rest hc
      by_cases hlength : i = r.activities.length
      . rw [hlength, hnew] at hc
        cases hc
        exact he c (Race.eq_begins_of_remaining hnew)
      . rw [hold i hlength] at hc
        exact h.idle i c' rest hc
  | accesses i c rest hcurrent hpage hnew hold =>
    -- All but a contender go on without a trace in the cells.
    have hidle (hrest : T.Idle c (rest.step r.page).1)
        (hsame : ∀ cell, T.cells cell = true → (rest.step r.page).2.load cell = r.page.load cell)
        : T.Unmade (r.step e) := by
      refine ⟨hsize, ?_, ?_⟩
      . rw [hpage]; exact T.clear_congr hsame h.clear
      . intro j c' rest' hc
        by_cases hj : j = i
        . rw [hj, hnew] at hc
          cases hc
          exact hrest
        . rw [hold j hj] at hc
          exact h.idle j c' rest' hc
    cases h.idle i c rest hcurrent with
    | early hc => exact .inl (hidle (.early hc) fun _ _ => rfl)
    | waits hc => exact .inr (.claims i c hc hcurrent hpage hnew hold)
    | aside hc hcontends hrest =>
      obtain ⟨hrest, hsame⟩ := hrest.step r.page
      exact .inl (hidle (.aside hc hcontends hrest) hsame)
    | asks hc =>
      obtain ⟨a, ha⟩ := Option.isSome_iff_exists.mp hc
      have hstep := T.step_before ha (.inl h.clear)
      rw [hstep] at hidle
      exact .inl (hidle (.early ha) fun _ _ => rfl)

end Topic

namespace Report

-- How far calls can be that do not make the report, when some of its stores are left.
inductive Stands (R : Report T) (left : List Store) : Call → Program → Prop
  | idle {c : Call} {rest : Program} (h : T.Idle c rest) : Stands R left c rest
  | refused {c : Call} (h : T.Contends c) : Stands R left c (.done (.written false))
  | informed {c : Call} {rest : Program} {a : Answer} (hleft : left = []) (h : R.after c = some a)
      (hrest : Yields (fun p => ∀ s ∈ R.stores, p.Holds s) rest a) : Stands R left c rest

structure MadeBy (R : Report T) (k : Nat) (left : List Store) (r : Race) : Prop where
  size : r.page.message.length = messageCapacity
  call : r.remaining k = some (R.call, .storing left R.answer)
  written : Written r.page R.stores left
  hides : left ≠ [] → T.Hides r.page
  others : ∀ i c rest, i ≠ k → r.remaining i = some (c, rest) → R.Stands left c rest

def Informs (R : Report T) (n : Nat) (r : Race) : Prop :=
  ∀ i c rest a, n ≤ i → r.remaining i = some (c, rest) → R.after c = some a →
    Yields (fun p => ∀ s ∈ R.stores, p.Holds s) rest a

variable {R : Report T} {left : List Store} {k : Nat}

theorem Stands.next {s : Store} (h : R.Stands (s :: left) c rest) : R.Stands left c rest := by
  cases h with
  | idle h => exact .idle h
  | refused h => exact .refused h
  | informed hleft => contradiction

theorem Stands.step (h : R.Stands left c rest) (hides : left ≠ [] → T.Hides p)
    (hshows : left = [] → ∀ s ∈ R.stores, p.Holds s)
    : R.Stands left c (rest.step p).1
        ∧ ∀ cell, T.cells cell = true → (rest.step p).2.load cell = p.load cell := by
  have hpage : T.Hides p ∨ ∀ s ∈ R.stores, p.Holds s := by
    by_cases hleft : left = []
    . exact .inr (hshows hleft)
    . exact .inl (hides hleft)
  cases h with
  | refused h => exact ⟨.refused h, fun _ _ => rfl⟩
  | informed hleft h hrest =>
    obtain ⟨hrest, hsame⟩ := hrest.step (hshows hleft)
    rw [hsame]
    exact ⟨.informed hleft h hrest, fun _ _ => rfl⟩
  | idle h =>
    cases h with
    | early h => exact ⟨.idle (.early h), fun _ _ => rfl⟩
    | waits h =>
      rw [R.refuses h hpage]
      exact ⟨.refused h, fun _ _ => rfl⟩
    | aside h hc hrest =>
      obtain ⟨hrest, hsame⟩ := hrest.step p
      exact ⟨.idle (.aside h hc hrest), hsame⟩
    | asks h =>
      by_cases hleft : left = []
      . obtain ⟨a, ha⟩ := R.after_of_before h
        obtain ⟨hrest, hsame⟩ := (R.yields_after ha).step (hshows hleft)
        rw [hsame]
        exact ⟨.informed hleft ha hrest, fun _ _ => rfl⟩
      . obtain ⟨a, ha⟩ := Option.isSome_iff_exists.mp h
        rw [T.step_before ha (.inr (hides hleft))]
        exact ⟨.idle (.early ha), fun _ _ => rfl⟩

theorem informs_length (R : Report T) (r : Race) : R.Informs r.activities.length r := by
  intro i c rest a hi hc
  obtain ⟨activity, hactivity, _⟩ := Option.map_eq_some_iff.mp hc
  have := (List.getElem?_eq_some_iff.mp hactivity).1
  omega

namespace MadeBy

theorem page_shows (h : R.MadeBy k [] r) : ∀ s ∈ R.stores, r.page.Holds s :=
  h.written.holds

theorem lt_length (h : R.MadeBy k left r) : k < r.activities.length := by
  obtain ⟨a, ha, _⟩ := Option.map_eq_some_iff.mp h.call
  exact (List.getElem?_eq_some_iff.mp ha).1

theorem access (h : R.MadeBy k left r)
    (hpage : r'.page = ((Program.storing left R.answer).step r.page).2)
    (hnew : r'.remaining k = some (R.call, ((Program.storing left R.answer).step r.page).1))
    (hold : ∀ j ≠ k, r'.remaining j = r.remaining j)
    : ∃ left', R.MadeBy k left' r' ∧ (left = [] → left' = []) := by
  cases left with
  | nil =>
    refine ⟨[], ?_, fun _ => rfl⟩
    have hpage : r'.page = r.page := hpage
    constructor
    case size => rw [hpage, h.size]
    case call => exact hnew
    case written => rw [hpage]; exact h.written
    case hides => exact fun hne => absurd rfl hne
    case others =>
      intro i c rest hi hc
      rw [hold i hi] at hc
      exact h.others i c rest hi hc
  | cons s left =>
    refine ⟨left, ?_, nofun⟩
    have hpage : r'.page = r.page.store s := hpage
    constructor
    case size => rw [hpage, length_message_store, h.size]
    case call => exact hnew
    case written =>
      rw [hpage]
      exact h.written.store h.size R.orderly
    case hides =>
      intro hne
      obtain ⟨made, hstores, _⟩ := h.written
      rw [hpage]
      exact R.hides_store hstores hne (h.hides nofun)
    case others =>
      intro i c rest hi hc
      rw [hold i hi] at hc
      exact (h.others i c rest hi hc).next

theorem step (h : R.MadeBy k left r) {e : Race.Event} (he : T.Admits e)
    : ∃ left', R.MadeBy k left' (r.step e) ∧ (left = [] → left' = []) := by
  have hmoves := Race.moves_step r e
  have hsize := hmoves.size.trans h.size
  cases hmoves with
  | rests hpage hold =>
    refine ⟨left, ⟨hsize, ?_, ?_, ?_, ?_⟩, id⟩
    . rw [hold, h.call]
    . rw [hpage]; exact h.written
    . rw [hpage]; exact h.hides
    . intro i c rest hi hc
      rw [hold] at hc
      exact h.others i c rest hi hc
  | begins c hpage hnew hold =>
    refine ⟨left, ⟨hsize, ?_, ?_, ?_, ?_⟩, id⟩
    . rw [hold k (Nat.ne_of_lt h.lt_length), h.call]
    . rw [hpage]; exact h.written
    . rw [hpage]; exact h.hides
    . intro i c' rest hi hc
      by_cases hlength : i = r.activities.length
      . rw [hlength, hnew] at hc
        cases hc
        exact .idle (he c (Race.eq_begins_of_remaining hnew))
      . rw [hold i hlength] at hc
        exact h.others i c' rest hi hc
  | accesses i c rest hcurrent hpage hnew hold =>
    by_cases hi : i = k
    . rw [hi] at hcurrent hnew hold
      rw [h.call] at hcurrent
      cases hcurrent
      exact h.access hpage hnew hold
    . have hshows (hleft : left = []) : ∀ s ∈ R.stores, r.page.Holds s := by
        rw [hleft] at h
        exact h.page_shows
      obtain ⟨hstands, hsame⟩ := (h.others i c rest hi hcurrent).step h.hides hshows
      rw [← hpage] at hsame
      refine ⟨left, ⟨hsize, ?_, ?_, ?_, ?_⟩, id⟩
      . rw [hold k (Ne.symm hi), h.call]
      . exact h.written.congr fun s hs => hsame s.cell (R.cells_of_mem s hs)
      . exact fun hne => T.hides_congr hsame (h.hides hne)
      . intro j c' rest' hj hc
        by_cases hji : j = i
        . rw [hji, hnew] at hc
          cases hc
          exact hstands
        . rw [hold j hji] at hc
          exact h.others j c' rest' hj hc

theorem run (h : R.MadeBy k left r) {es : List Race.Event} (hes : ∀ e ∈ es, T.Admits e)
    : ∃ left', R.MadeBy k left' (r.run es) ∧ (left = [] → left' = []) := by
  induction es generalizing left r with
  | nil => exact ⟨left, h, id⟩
  | cons e es ih =>
    rw [List.forall_mem_cons] at hes
    obtain ⟨left', hstep, hleft⟩ := h.step hes.1
    obtain ⟨left'', hrun, hleft'⟩ := ih hstep hes.2
    exact ⟨left'', hrun, hleft' ∘ hleft⟩

theorem informs_step (h : R.MadeBy k [] r) {n : Nat} (hinforms : R.Informs n r) (e : Race.Event)
    : R.Informs n (r.step e) := by
  intro j c' rest' a hj hc ha
  cases Race.moves_step r e with
  | rests hpage hold =>
    rw [hold] at hc
    exact hinforms j c' rest' a hj hc ha
  | begins c hpage hnew hold =>
    by_cases hlength : j = r.activities.length
    . rw [hlength, hnew] at hc
      cases hc
      exact R.yields_after ha
    . rw [hold j hlength] at hc
      exact hinforms j c' rest' a hj hc ha
  | accesses i c rest hcurrent hpage hnew hold =>
    by_cases hji : j = i
    . rw [hji, hnew] at hc
      cases hc
      exact ((hinforms i _ rest a (hji ▸ hj) hcurrent ha).step h.page_shows).1
    . rw [hold j hji] at hc
      exact hinforms j c' rest' a hj hc ha

theorem informs_run (h : R.MadeBy k [] r) {n : Nat} (hinforms : R.Informs n r)
    {es : List Race.Event} (hes : ∀ e ∈ es, T.Admits e)
    : R.Informs n (r.run es) := by
  induction es generalizing r with
  | nil => exact hinforms
  | cons e es ih =>
    rw [List.forall_mem_cons] at hes
    obtain ⟨left', hstep, hleft⟩ := h.step hes.1
    rw [hleft rfl] at hstep
    exact ih hstep (h.informs_step hinforms e) hes.2

variable {a : Answer} {i : Nat}

theorem before_or_after (h : R.MadeBy k left r) (hreturned : r.remaining i = some (c, .done a))
    (hi : i ≠ k) (hc : (T.before c).isSome) (hcontends : ¬ T.Contends c)
    : T.before c = some a ∨ (left = [] ∧ R.after c = some a) := by
  have hstands := h.others i c _ hi hreturned
  generalize hrest : Program.done a = rest at hstands
  cases hstands with
  | idle h =>
    rw [← hrest] at h
    exact .inl (h.before_eq hc)
  | refused h => exact absurd h hcontends
  | informed hleft h hyields =>
    rw [← hrest] at hyields
    rw [← hyields.eq_of_done]
    exact .inr ⟨hleft, h⟩

theorem written_false (h : R.MadeBy k left r) (hreturned : r.remaining i = some (c, .done a))
    (hi : i ≠ k) (hcontends : T.Contends c) (hbefore : T.before c = .none)
    (hafter : R.after c = .none)
    : a = .written false := by
  have hstands := h.others i c _ hi hreturned
  generalize hrest : Program.done a = rest at hstands
  cases hstands with
  | idle h =>
    rw [← hrest] at h
    exact absurd hcontends (h.not_contends hbefore)
  | refused => exact Program.done.inj hrest
  | informed _ h =>
    rw [hafter] at h
    contradiction

end MadeBy

end Report

end Enclosure.Outcome
