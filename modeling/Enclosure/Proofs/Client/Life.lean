import Enclosure.Client.Scripted
import Enclosure.Proofs.Client.Turn

/-!
This module contains what the life of a connection comes to, whatever is called and whatever the
supervisor does. A supervisor that fails is ended at once and reported, the calls after that touch
nothing, and in the end each supervisor has been reaped exactly once and its tree removed after
that.
-/

namespace Enclosure

/-- A misuse or a refused request changes nothing, each handle has a number of its own, a failure
ends the supervisor, and no call reaches one that is gone. -/
structure Turn.Lawful (t : Turn F) : Prop where
  refused : ∀ fault : ClientFault, fault.isRefusal = true → t.reply = .sent (.error fault) →
    t.after = t.before ∧ t.operations = []
  sent : ∀ h, t.reply = .sent (.ok h) →
    h = ⟨t.before.nextSend, t.before.token⟩
      ∧ t.after = { t.before with nextSend := t.before.nextSend + 1 }
  unsent : (∀ h, t.reply ≠ .sent (.ok h)) → t.after.nextSend = t.before.nextSend
  misused : ∀ fault, t.reply = .awaited (.error fault) → t.after = t.before ∧ t.operations = []
  failed : (∃ o ∈ t.operations, o.fails = true) →
    ∃ status text,
      (t.reply = .sent (.error (.died status text))
        ∨ t.reply = .awaited (.ok (.error (.died status text))))
        ∧ .close ∈ t.operations
        ∧ .wait (.ok status) ∈ t.operations
        ∧ t.after.isOpen = false
        ∧ t.after.isFinished = true
  broken : t.before.isFinished = true →
    t.operations = []
      ∧ (∀ r, t.call = .send r → t.reply = .sent (.error .broken) ∧ t.after = t.before)
      ∧ (t.call = .await t.before.nextHandle → t.reply = .awaited (.ok (.error .broken)))

-- Whoever awaits a handle with this token has got it from an earlier call.
def OwnHandles (token : UInt32) (earlier : List (Turn F)) : List (Turn F) → Prop
  | [] => True
  | t :: later =>
    (∀ h, t.call = .await h → h.token = token → ∃ t' ∈ earlier, t'.reply = .sent (.ok h))
      ∧ OwnHandles token (earlier ++ [t]) later

namespace Turn.Possible

variable {t : Turn F}

theorem eq_of_refused (h : t.Possible) {fault : ClientFault} (hfault : fault.isRefusal = true)
    (hreply : t.reply = .sent (.error fault))
    : t.after = t.before ∧ t.operations = [] := by
  cases h with
  | refused | unsent => exact ⟨rfl, rfl⟩
  | brokenOff =>
    cases hreply
    contradiction
  | _ => cases hreply

theorem eq_of_sent (h : t.Possible) {handle : Handle} (hreply : t.reply = .sent (.ok handle))
    : handle = ⟨t.before.nextSend, t.before.token⟩
        ∧ t.after = { t.before with nextSend := t.before.nextSend + 1 } := by
  cases h with
  | sent =>
    cases hreply
    exact ⟨rfl, rfl⟩
  | _ => cases hreply

theorem nextSend_eq (h : t.Possible) (hreply : ∀ handle, t.reply ≠ .sent (.ok handle))
    : t.after.nextSend = t.before.nextSend := by
  cases h with
  | sent => exact absurd rfl (hreply _)
  | _ => rfl

theorem eq_of_misused (h : t.Possible) {fault : HandleFault}
    (hreply : t.reply = .awaited (.error fault))
    : t.after = t.before ∧ t.operations = [] := by
  cases h with
  | misused => exact ⟨rfl, rfl⟩
  | _ => cases hreply

theorem died_of_fails (h : t.Possible) (hfails : ∃ o ∈ t.operations, o.fails = true)
    : ∃ status text,
        (t.reply = .sent (.error (.died status text))
          ∨ t.reply = .awaited (.ok (.error (.died status text))))
          ∧ .close ∈ t.operations
          ∧ .wait (.ok status) ∈ t.operations
          ∧ t.after.isOpen = false
          ∧ t.after.isFinished = true := by
  cases h with
  | @brokenOff _ _ _ _ _ status text =>
    refine ⟨status, text, .inl rfl, ?_, ?_, rfl, rfl⟩
    . simp
    . simp [Connection.reaping]
  | @garbled _ _ status text =>
    refine ⟨status, text, .inr rfl, ?_, ?_, rfl, rfl⟩
    . simp
    . simp [Connection.reaping]
  | _ => simp [Operation.fails] at hfails

theorem operations_of_finished (h : t.Possible) (hfinished : t.before.isFinished = true)
    : t.operations = [] := by
  cases h with
  | unsent | unanswered | misused => rfl
  | refused halive | sent halive | brokenOff halive | received halive | garbled halive =>
    exact Bool.noConfusion (hfinished.symm.trans halive)

theorem reply_of_finished (h : t.Possible) (hfinished : t.before.isFinished = true)
    : (∀ r, t.call = .send r → t.reply = .sent (.error .broken) ∧ t.after = t.before)
        ∧ (t.call = .await t.before.nextHandle → t.reply = .awaited (.ok (.error .broken))) := by
  cases h with
  | unsent => exact ⟨fun _ _ => ⟨rfl, rfl⟩, fun hcall => by cases hcall⟩
  | unanswered => exact ⟨fun _ hcall => (by cases hcall), fun _ => rfl⟩
  | misused hne =>
    exact ⟨fun _ hcall => (by cases hcall), fun hcall => absurd (Call.await.inj hcall) hne⟩
  | refused halive | sent halive | brokenOff halive | received halive | garbled halive =>
    exact Bool.noConfusion (hfinished.symm.trans halive)

theorem lawful (h : t.Possible) : t.Lawful where
  refused _ := h.eq_of_refused
  sent _ := h.eq_of_sent
  unsent := h.nextSend_eq
  misused _ := h.eq_of_misused
  failed := h.died_of_fails
  broken hfinished := ⟨h.operations_of_finished hfinished, h.reply_of_finished hfinished⟩

theorem token_eq (h : t.Possible) : t.after.token = t.before.token := by
  cases h <;> rfl

theorem tree_eq (h : t.Possible) : t.after.tree = t.before.tree := by
  cases h <;> rfl

theorem finished (h : t.Possible) (hfinished : t.before.isFinished = true)
    : t.after.isFinished = true := by
  cases h with
  | unsent hgone | unanswered hgone => exact hgone
  | brokenOff | garbled => rfl
  | _ => exact hfinished

theorem reaps (h : t.Possible) (halive : t.before.isFinished = false)
    : (t.after.isFinished = false ∧ t.operations.filter Operation.reaps = [])
        ∨ (t.after.isFinished = true
          ∧ ∃ status, t.operations.filter Operation.reaps = t.before.reaping status) := by
  cases h with
  | refused | sent | misused | received => exact .inl ⟨halive, rfl⟩
  | @brokenOff _ _ _ _ _ status _ _ _ hrest | @garbled _ _ status _ _ _ hrest =>
    refine .inr ⟨rfl, status, ?_⟩
    rw [List.filter_append, Operation.filter_reaps_aftermath hrest, List.append_nil]
    rfl
  | unsent hgone | unanswered hgone =>
    rw [halive] at hgone
    contradiction

theorem nextSend_le (h : t.Possible) : t.before.nextSend ≤ t.after.nextSend := by
  cases h with
  | sent => exact Nat.le_succ _
  | _ => exact Nat.le_refl _

theorem counters (h : t.Possible) (hle : t.before.nextAwait ≤ t.before.nextSend)
    (hissued : t.call = .await t.before.nextHandle → t.before.nextAwait < t.before.nextSend)
    : t.after.nextAwait ≤ t.after.nextSend := by
  cases h with
  | refused | unsent | misused | brokenOff => exact hle
  | sent => exact Nat.le_succ_of_le hle
  | received | garbled | unanswered => exact hissued rfl

end Turn.Possible

inductive Chain : Connection → List (Turn F) → Connection → Prop
  | nil (c : Connection) : Chain c [] c
  | cons {t : Turn F} {ts : List (Turn F)} {last : Connection} (h : t.Possible)
      (later : Chain t.after ts last) : Chain t.before (t :: ts) last

namespace Chain

variable {c last : Connection} {ts : List (Turn F)}

theorem possible (h : Chain c ts last) : ∀ t ∈ ts, t.Possible := by
  induction h with
  | nil => simp
  | cons h _ ih => exact List.forall_mem_cons.mpr ⟨h, ih⟩

theorem tree_eq (h : Chain c ts last) : last.tree = c.tree := by
  induction h with
  | nil => rfl
  | cons h _ ih => rw [ih, h.tree_eq]

theorem of_finished (h : Chain c ts last) (hfinished : c.isFinished = true)
    : (∀ t ∈ ts, t.before.isFinished = true) ∧ ts.flatMap Turn.operations = []
        ∧ last.isFinished = true := by
  induction h with
  | nil => exact ⟨by simp, rfl, hfinished⟩
  | cons h _ ih =>
    obtain ⟨hbefore, hnil, hlast⟩ := ih (h.finished hfinished)
    refine ⟨List.forall_mem_cons.mpr ⟨hfinished, hbefore⟩, ?_, hlast⟩
    rw [List.flatMap_cons, h.operations_of_finished hfinished, hnil]
    rfl

theorem reaps (h : Chain c ts last) (halive : c.isFinished = false)
    : (last.isFinished = false ∧ (ts.flatMap Turn.operations).filter Operation.reaps = [])
        ∨ (last.isFinished = true
          ∧ ∃ status, (ts.flatMap Turn.operations).filter Operation.reaps = c.reaping status) := by
  induction h with
  | nil => exact .inl ⟨halive, rfl⟩
  | @cons t ts last h later ih =>
    rw [List.flatMap_cons, List.filter_append]
    obtain ⟨halive, hnil⟩ | ⟨hfinished, status, hreaped⟩ := h.reaps halive
    . have htree : t.after.reaping (F := F) = t.before.reaping := by
        unfold Connection.reaping
        rw [h.tree_eq]
      rw [hnil, List.nil_append, ← htree]
      exact ih halive
    . obtain ⟨_, hnil, hlast⟩ := later.of_finished hfinished
      refine .inr ⟨hlast, status, ?_⟩
      rw [hnil, hreaped]
      rfl

theorem split {t : Turn F} {front back : List (Turn F)} (h : Chain c (front ++ t :: back) last)
    : Chain t.after back last := by
  induction front generalizing c with
  | nil =>
    cases h with
    | cons _ later => exact later
  | cons _ front ih =>
    cases h with
    | cons _ later => exact ih later

theorem fresh (h : Chain c ts last)
    : (∀ t ∈ ts, ∀ handle, t.reply = .sent (.ok handle) → c.nextSend ≤ handle.seq)
        ∧ ts.Pairwise fun t t' => ∀ handle handle',
            t.reply = .sent (.ok handle) → t'.reply = .sent (.ok handle') →
              handle.seq < handle'.seq := by
  induction h with
  | nil => exact ⟨by simp, .nil⟩
  | @cons t ts last h _ ih =>
    obtain ⟨hfresh, hpairwise⟩ := ih
    constructor
    . rw [List.forall_mem_cons]
      constructor
      . intro handle hreply
        have hseq : handle.seq = t.before.nextSend := congrArg Handle.seq (h.eq_of_sent hreply).1
        exact Nat.le_of_eq hseq.symm
      . intro t' ht' handle hreply
        exact Nat.le_trans h.nextSend_le (hfresh t' ht' handle hreply)
    . refine .cons ?_ hpairwise
      intro t' ht' handle handle' hreply hreply'
      obtain ⟨hhandle, hafter⟩ := h.eq_of_sent hreply
      have hle := hfresh t' ht' handle' hreply'
      rw [hafter] at hle
      rw [hhandle]
      exact hle

theorem counters {earlier : List (Turn F)} (h : Chain c ts last)
    (hearlier : ∀ t ∈ earlier, ∀ handle, t.reply = .sent (.ok handle) → handle.seq < c.nextSend)
    (hle : c.nextAwait ≤ c.nextSend) (hown : OwnHandles c.token earlier ts)
    : ∀ t ∈ ts, t.after.nextAwait ≤ t.after.nextSend := by
  induction h generalizing earlier with
  | nil => simp
  | @cons t ts last h later ih =>
    obtain ⟨hissued, hown⟩ := hown
    have hissued : t.call = .await t.before.nextHandle →
        t.before.nextAwait < t.before.nextSend := by
      intro hcall
      obtain ⟨t', ht', hreply⟩ := hissued _ hcall rfl
      exact hearlier t' ht' _ hreply
    have hcounters := h.counters hle hissued
    rw [← h.token_eq] at hown
    rw [List.forall_mem_cons]
    refine ⟨hcounters, ih ?_ hcounters hown⟩
    rw [List.forall_mem_append, List.forall_mem_singleton]
    constructor
    . intro t' ht' handle hreply
      exact Nat.lt_of_lt_of_le (hearlier t' ht' handle hreply) h.nextSend_le
    . intro handle hreply
      obtain ⟨hhandle, hafter⟩ := h.eq_of_sent hreply
      rw [hhandle, hafter]
      exact Nat.lt_succ_self _

end Chain

namespace Connection

variable {σ F : Type} [FileSystem σ] [Peer σ F] {child ends : σ → Prop} {c : Connection} {s : σ}

theorem turns_chain (h : Unreaped child ends) (hc : c.Holds child s) (calls : List (Call F))
    : Chain c (turns c s calls).1 (turns c s calls).2.1
        ∧ (turns c s calls).2.1.Holds child (turns c s calls).2.2 := by
  induction calls generalizing c s with
  | nil => exact ⟨.nil c, hc⟩
  | cons call calls ih =>
    obtain ⟨hpossible, hafter⟩ := turn_possible h hc call
    obtain ⟨hchain, hlast⟩ := ih hafter
    exact ⟨.cons hpossible hchain, hlast⟩

theorem drop_of_finished (hfinished : c.isFinished = true) (s : σ)
    : drop c s = ((.done, c), s) := by
  unfold drop
  rw [ClientM.run_bind, finish_of_finished hfinished]
  rfl

theorem giveUp_of_finished (hfinished : c.isFinished = true) (farewell : Farewell) (s : σ)
    : giveUp farewell c s = ((.done, c), s) := by
  cases farewell with
  | drop => exact drop_of_finished hfinished s
  | shutdown =>
    change shutdown c s = _
    unfold shutdown
    rw [ClientM.run_bind, finish_of_finished hfinished, ClientM.run_bind,
      drop_of_finished hfinished]
    rfl

-- Giving up does what finishing does; letting go afterwards finds nothing to do.
theorem giveUp_of_finish {result : Except ClientFault Unit} {c' : Connection} {s' : σ}
    (hfinish : finish c s = ((result, c'), s')) (hfinished : c'.isFinished = true)
    (farewell : Farewell)
    : ∃ ending, giveUp farewell c s = ((ending, c'), s') := by
  cases farewell with
  | drop =>
    change ∃ ending, drop c s = ((ending, c'), s')
    unfold drop
    rw [ClientM.run_bind, hfinish]
    cases result with
    | ok => exact ⟨_, rfl⟩
    | error e => exact ⟨_, rfl⟩
  | shutdown =>
    change ∃ ending, shutdown c s = ((ending, c'), s')
    unfold shutdown
    rw [ClientM.run_bind, hfinish, ClientM.run_bind, drop_of_finished hfinished]
    cases result with
    | ok => exact ⟨_, rfl⟩
    | error e => exact ⟨_, rfl⟩

theorem giveUp_unreaped (h : Unreaped child ends) (halive : c.isFinished = false)
    (hc : c.Holds child s) (farewell : Farewell)
    : ∃ status,
        (giveUp farewell c ({ state := s } : Journal σ F)).2.operations.filter Operation.reaps
          = c.reaping status := by
  cases hc with
  | gone hfinished => exact Bool.noConfusion (halive.symm.trans hfinished)
  | running _ _ hchild =>
    obtain ⟨result, status, front, rest, j, hfinish, hoperations, hfront, hrest⟩ :=
      finish_unreaped (j := { state := s }) h halive hchild
    obtain ⟨ending, hgiveUp⟩ := giveUp_of_finish hfinish rfl farewell
    refine ⟨status, ?_⟩
    have hfront : front.filter Operation.reaps = [] := by
      rw [List.filter_eq_nil_iff]
      intro o ho
      rw [hfront o ho]
      decide
    rw [hgiveUp, hoperations, List.filter_append, List.filter_append, List.filter_append, hfront,
      Operation.filter_reaps_aftermath hrest]
    rfl

/-- Whatever is called and whatever the supervisor does, the calls keep to the rules, the handles
are counted, a failure ends the connection, and in the end the supervisor has been reaped exactly
once and the removal of its tree begun exactly once, after that. -/
theorem live_reaps_once (h : Unreaped child ends) (hs : child s) (token : UInt32) (root : String)
    (shutdownTimeout : Duration) (calls : List (Call F)) (farewell : Farewell)
    (hown : OwnHandles token [] (live { token, root, shutdownTimeout } s calls farewell).turns)
    : let life := live { token, root, shutdownTimeout } s calls farewell
      (∀ t ∈ life.turns, t.Lawful ∧ t.after.nextAwait ≤ t.after.nextSend)
        ∧ life.turns.Pairwise (fun t t' => ∀ handle handle', t.reply = .sent (.ok handle) →
            t'.reply = .sent (.ok handle') → handle.seq < handle'.seq)
        ∧ (∀ front t back, life.turns = front ++ t :: back → (∃ o ∈ t.operations, o.fails = true) →
            (∀ t' ∈ back, t'.before.isFinished = true) ∧ life.ending = .done ∧ life.farewell = [])
        ∧ ∃ status, life.operations.filter Operation.reaps
            = [.wait (.ok status), .onPath .list (ControlGroup.treePath root token)] := by
  intro life
  obtain ⟨hchain, hlast⟩ :=
    turns_chain h (.running rfl rfl hs : Holds child { token, root, shutdownTimeout } s) calls
  change Chain _ life.turns life.last at hchain
  refine ⟨?_, hchain.fresh.2, ?_, ?_⟩
  . intro t ht
    refine ⟨(hchain.possible t ht).lawful, hchain.counters ?_ (Nat.le_refl _) hown t ht⟩
    simp
  . intro front t back hturns hfails
    rw [hturns] at hchain
    have ht : t ∈ front ++ t :: back := by simp
    obtain ⟨_, _, _, _, _, _, hfinished⟩ := (hchain.possible t ht).died_of_fails hfails
    obtain ⟨hback, _, hlast⟩ := hchain.split.of_finished hfinished
    have hgiveUp := giveUp_of_finished hlast farewell
      ({ state := (turns { token, root, shutdownTimeout } s calls).2.2 } : Journal σ F)
    refine ⟨hback, congrArg (·.1.1) hgiveUp, congrArg (·.2.operations) hgiveUp⟩
  . have hoperations : life.operations.filter Operation.reaps
        = (life.turns.flatMap Turn.operations).filter Operation.reaps
          ++ life.farewell.filter Operation.reaps := List.filter_append _ _
    rw [hoperations]
    obtain ⟨halive, hnil⟩ | ⟨hfinished, status, hreaped⟩ := hchain.reaps rfl
    . -- The supervisor is still running after the last call.
      obtain ⟨status, hreaped⟩ := giveUp_unreaped h halive hlast farewell
      have hreaped : life.farewell.filter Operation.reaps = life.last.reaping status := hreaped
      refine ⟨status, ?_⟩
      rw [hnil, hreaped, List.nil_append]
      unfold reaping
      rw [hchain.tree_eq]
      rfl
    . have hfarewell : life.farewell = [] := congrArg (·.2.operations)
        (giveUp_of_finished hfinished farewell
          ({ state := (turns { token, root, shutdownTimeout } s calls).2.2 } : Journal σ F))
      refine ⟨status, ?_⟩
      rw [hreaped, hfarewell]
      rfl

end Connection

namespace Scripted

theorem reaped_follow (s : Scripted) (script : List ScriptStep)
    : (s.follow script).process.reaped = s.process.reaped := by
  induction script generalizing s with
  | nil =>
    unfold follow
    dsimp only
    split
    . rfl
    . rfl
  | cons step script ih =>
    cases step with
    | read =>
      unfold follow
      split
      . rw [ih]
      . split
        . rfl
        . rfl
    | write | errorOutput =>
      unfold follow
      rw [ih]
    | exit | kill | hang => rfl

theorem reaped_goOn (s : Scripted) : s.goOn.process.reaped = s.process.reaped := by
  unfold goOn
  split
  . rfl
  . exact s.reaped_follow s.script

theorem unreaped
    : Unreaped (fun s : Scripted => s.process.reaped = false)
        (fun s => s.process.hasEnded = true) where
  send s frame descriptors hchild := by
    change (s.send frame descriptors).2.process.reaped = false
    unfold send
    split
    . exact hchild
    . exact (reaped_goOn _).trans hchild
  receive s hchild := hchild
  close s hchild := (reaped_goOn _).trans hchild
  kill s hchild := ⟨_, rfl, hchild, rfl⟩
  endsWithin s time hchild := ⟨_, s, rfl, hchild, id⟩
  wait s hchild hends := by
    obtain ⟨status, hstatus⟩ := Option.isSome_iff_exists.mp hends
    refine ⟨status, { s with process := { ended := some status, reaped := true } }, ?_⟩
    change s.wait = _
    unfold wait Child.tryWait
    rw [hchild, hstatus]
    rfl

end Scripted

namespace Connection

-- Two requests, the second handle first, and an answer that is none.
def misunderstanding : List (Call Unit) :=
  [.send { argv := [""] }, .send { argv := [""] }, .await ⟨1, 1⟩, .await ⟨0, 1⟩,
    .send { argv := [] }, .await ⟨1, 1⟩]

def garbling : Scripted :=
  { program := "", script := [.read, .read, .write [1, 0, 0, 0, 9], .hang] }

theorem live_reaps_once_of_garbling
    : let life := live { token := 1, root := "", shutdownTimeout := .zero } garbling
        misunderstanding .shutdown
      garbling.process.reaped = false
        ∧ OwnHandles 1 [] life.turns
        ∧ life.turns.map Turn.reply
            = [.sent (.ok ⟨0, 1⟩), .sent (.ok ⟨1, 1⟩), .awaited (.error .outOfOrder),
              .awaited (.ok (.error (.died (.killed .kill) ""))), .sent (.error .broken),
              .awaited (.ok (.error .broken))]
        ∧ life.ending = .done
        ∧ ∃ status, life.operations.filter Operation.reaps
            = [.wait (.ok status), .onPath .list (ControlGroup.treePath "" 1)] := by
  intro life
  have hreplies : life.turns.map Turn.reply
      = [.sent (.ok ⟨0, 1⟩), .sent (.ok ⟨1, 1⟩), .awaited (.error .outOfOrder),
        .awaited (.ok (.error (.died (.killed .kill) ""))), .sent (.error .broken),
        .awaited (.ok (.error .broken))] := by
    rfl
  have hown : OwnHandles 1 [] life.turns := by
    change _ ∧ _ ∧ _ ∧ _ ∧ _ ∧ _ ∧ True
    refine ⟨?_, ?_, ?_, ?_, ?_, ?_, trivial⟩
    . exact fun _ hcall => by cases hcall
    . exact fun _ hcall => by cases hcall
    . intro h hcall _
      cases hcall
      exact ⟨_, List.mem_cons_of_mem _ List.mem_cons_self, rfl⟩
    . intro h hcall _
      cases hcall
      exact ⟨_, List.mem_cons_self, rfl⟩
    . exact fun _ hcall => by cases hcall
    . intro h hcall _
      cases hcall
      exact ⟨_, List.mem_cons_of_mem _ List.mem_cons_self, rfl⟩
  have h := live_reaps_once Scripted.unreaped (s := garbling) rfl 1 "" .zero misunderstanding
    .shutdown hown
  exact ⟨rfl, hown, hreplies, rfl, h.2.2.2⟩

end Connection

end Enclosure
