import Enclosure.Proofs.Client.Journal

/-!
This module contains what a client does to its supervisor in one call, provided that the supervisor
is a child of its own that it has not waited for yet.
-/

namespace Enclosure

namespace Operation

variable {F : Type}

def reaps : Operation F → Bool
  | wait _ | onPath .list _ => true
  | _ => false

def fails : Operation F → Bool
  | send _ _ (.error _) | receive (.error _) => true
  | _ => false

def isAftermath : Operation F → Bool
  | onPath .removeDirectory _ | errorOutput _ => true
  | _ => false

theorem reaps_of_isAftermath {o : Operation F} (h : o.isAftermath = true) : o.reaps = false := by
  unfold isAftermath at h
  split at h
  . rfl
  . rfl
  . contradiction

theorem filter_reaps_aftermath {operations : List (Operation F)}
    (h : ∀ o ∈ operations, o.isAftermath = true)
    : operations.filter reaps = [] := by
  rw [List.filter_eq_nil_iff]
  intro o ho
  rw [reaps_of_isAftermath (h o ho)]
  decide

end Operation

def ClientFault.isRefusal : ClientFault → Bool
  | request _ | frame _ => true
  | _ => false

/-- While the supervisor is a `child` that has not been waited for, it can be killed and waited for.
`ends` says that it has ended, or is bound to. -/
structure Unreaped [Peer σ F] (child ends : σ → Prop) : Prop where
  send : ∀ (s : σ) (frame : List UInt8) (descriptors : List F), child s →
    child ((Peer.send frame descriptors : StateM σ _) s).2
  receive : ∀ s, child s → child ((Peer.receive : StateM σ _) s).2
  close : ∀ s, child s → child ((Peer.close : StateM σ _) s).2
  kill : ∀ s, child s → ∃ s', Peer.kill s = (.ok (), s') ∧ child s' ∧ ends s'
  endsWithin : ∀ s time, child s →
    ∃ inTime s', Peer.endsWithin time s = (.ok inTime, s') ∧ child s' ∧ (inTime = true → ends s')
  wait : ∀ s, child s → ends s → ∃ status s', Peer.wait s = (.ok status, s')

namespace Journal

variable {σ F : Type}

def Cleans (j j' : Journal σ F) : Prop :=
  ∃ rest, j'.operations = j.operations ++ rest ∧ ∀ o ∈ rest, o.isAftermath = true

def Removes (tree : String) (j j' : Journal σ F) : Prop :=
  ∃ rest, j'.operations = j.operations ++ .onPath .list tree :: rest
    ∧ ∀ o ∈ rest, o.isAftermath = true

theorem Cleans.refl (j : Journal σ F) : Cleans j j :=
  ⟨[], (List.append_nil _).symm, by simp⟩

theorem Cleans.trans {j j' j'' : Journal σ F} (h : Cleans j j') (h' : Cleans j' j'')
    : Cleans j j'' := by
  obtain ⟨rest, hrest, hclean⟩ := h
  obtain ⟨rest', hrest', hclean'⟩ := h'
  refine ⟨rest ++ rest', ?_, ?_⟩
  . rw [hrest', hrest, List.append_assoc]
  . rw [List.forall_mem_append]
    exact ⟨hclean, hclean'⟩

variable [FileSystem σ]

theorem cleans_removeDirectory (path : String)
    : Keeps (Cleans (F := F)) (FileSystem.removeDirectory path : StateM (Journal σ F) _) :=
  fun _ => ⟨[_], rfl, List.forall_mem_singleton.mpr rfl⟩

theorem removes_removeTree (root : String) (pid : UInt32)
    : Keeps (Removes (ControlGroup.treePath root pid))
        (ControlGroup.removeTree root pid : GroupM (Journal σ F) Unit).run := by
  unfold ControlGroup.removeTree
  refine Keeps.run_bind (P := fun j j' => j'.operations
    = j.operations ++ [.onPath .list (ControlGroup.treePath root pid)]) (Q := Cleans) ?_
    (fun _ => rfl) fun result => ?_
  . rintro j j' j'' hlist ⟨rest, hrest, hclean⟩
    refine ⟨rest, ?_, hclean⟩
    rw [hrest, hlist, List.append_assoc]
    rfl
  . cases result with
    | error e =>
      dsimp only
      split
      . exact .refl
      . exact .refl
    | ok entries =>
      have htrans (j j' j'' : Journal σ F) (h : Cleans j j') (h' : Cleans j' j'') : Cleans j j'' :=
        h.trans h'
      refine Keeps.run_bind htrans
        (ControlGroup.keeps_removeEach .refl htrans cleans_removeDirectory _ entries)
        fun fault => ?_
      cases fault with
      | some fault => exact .refl
      | none =>
        refine Keeps.run_bind htrans (cleans_removeDirectory _) fun result => ?_
        cases result with
        | ok => exact .refl
        | error => exact .refl

end Journal

namespace Connection

open ClientM

def tree (c : Connection) : String :=
  ControlGroup.treePath c.root c.token

def nextHandle (c : Connection) : Handle :=
  ⟨c.nextAwait, c.token⟩

variable {σ F : Type} [Peer σ F] {child ends : σ → Prop} {c : Connection}

section Ending

variable {j : Journal σ F}

def reaping (c : Connection) (status : ProcessStatus) : List (Operation F) :=
  [.wait (.ok status), .onPath .list c.tree]

theorem diagnostics_cleans (c : Connection) (j : Journal σ F)
    : ∃ text j', (diagnostics : ClientM (Journal σ F) _) c j = ((text, c), j') ∧ j.Cleans j' := by
  have hclean : j.Cleans ((Peer.errorOutput : StateM (Journal σ F) _) j).2 :=
    ⟨[_], rfl, List.forall_mem_singleton.mpr rfl⟩
  unfold diagnostics
  rw [run_bind, run_lift]
  rcases hresult : (Peer.errorOutput : StateM (Journal σ F) _) j with ⟨e | bytes, j'⟩
  . rw [hresult] at hclean
    exact ⟨_, j', rfl, hclean⟩
  . rw [hresult] at hclean
    exact ⟨_, j', rfl, hclean⟩

theorem closeSocket_eq (c : Connection) (j : Journal σ F)
    : (closeSocket : ClientM (Journal σ F) _) c j
        =
      (((), { c with isOpen := false }),
        ⟨((Peer.close : StateM σ _) j.state).2, j.operations ++ [.close]⟩) := rfl

variable [FileSystem σ]

theorem reap_unreaped (h : Unreaped child ends) (c : Connection) (hchild : child j.state)
    (hends : ends j.state)
    : ∃ status rest j',
        (reap : ClientM (Journal σ F) _) c j = ((.ok status, { c with isFinished := true }), j')
          ∧ j'.operations = j.operations ++ c.reaping status ++ rest
          ∧ ∀ o ∈ rest, o.isAftermath = true := by
  obtain ⟨status, s, hwait⟩ := h.wait j.state hchild hends
  have hwait : (Peer.wait : StateM (Journal σ F) _) j
      = (.ok status, ⟨s, j.operations ++ [.wait (.ok status)]⟩) := Journal.note_eq hwait .wait
  obtain ⟨rest, hrest, hclean⟩ := Journal.removes_removeTree c.root c.token
    (⟨s, j.operations ++ [.wait (.ok status)]⟩ : Journal σ F)
  unfold reap
  rw [run_bind, run_lift, hwait]
  refine ⟨status, rest, _, rfl, hrest.trans ?_, hclean⟩
  unfold reaping tree
  simp

theorem died_unreaped (h : Unreaped child ends) (c : Connection) (hchild : child j.state)
    : ∃ status text rest j',
        (died : ClientM (Journal σ F) _) c j
          = ((.died status text, { c with isOpen := false, isFinished := true }), j')
          ∧ j'.operations = j.operations ++ [.close, .kill (.ok ())] ++ c.reaping status ++ rest
          ∧ ∀ o ∈ rest, o.isAftermath = true := by
  obtain ⟨s, hkill, hchild, hends⟩ := h.kill _ (h.close _ hchild)
  have hkill : (Peer.kill : StateM (Journal σ F) _)
        ⟨((Peer.close : StateM σ _) j.state).2, j.operations ++ [.close]⟩
      = (.ok (), ⟨s, j.operations ++ [.close] ++ [.kill (.ok ())]⟩) := Journal.note_eq hkill .kill
  obtain ⟨status, rest, j₁, hreap, hrest, hclean⟩ :=
    reap_unreaped (j := ⟨s, j.operations ++ [.close] ++ [.kill (.ok ())]⟩) h
      { c with isOpen := false } hchild hends
  obtain ⟨text, j₂, htext, rest', hrest', hclean'⟩ :=
    diagnostics_cleans { c with isOpen := false, isFinished := true } j₁
  unfold died
  rw [run_bind, closeSocket_eq, run_bind, run_lift, hkill, run_bind, hreap]
  dsimp only
  rw [run_bind, htext]
  refine ⟨status, text, rest ++ rest', j₂, rfl, ?_, ?_⟩
  . rw [hrest', hrest]
    simp [reaping, tree]
  . rw [List.forall_mem_append]
    exact ⟨hclean, hclean'⟩

theorem settle_unreaped (h : Unreaped child ends) (c : Connection) (hchild : child j.state)
    (hends : ends j.state) (isGood : ProcessStatus → Bool)
    : ∃ result status rest j',
        (settle isGood : ClientM (Journal σ F) _) c j
            = ((result, { c with isFinished := true }), j')
          ∧ j'.operations = j.operations ++ c.reaping status ++ rest
          ∧ ∀ o ∈ rest, o.isAftermath = true := by
  obtain ⟨status, rest, j₁, hreap, hrest, hclean⟩ := reap_unreaped h c hchild hends
  unfold settle
  rw [run_bind, hreap]
  dsimp only
  split
  . exact ⟨.ok (), status, rest, j₁, rfl, hrest, hclean⟩
  . obtain ⟨text, j₂, htext, rest', hrest', hclean'⟩ :=
      diagnostics_cleans { c with isFinished := true } j₁
    rw [run_bind, htext]
    refine ⟨_, status, rest ++ rest', j₂, rfl, ?_, ?_⟩
    . rw [hrest', hrest, List.append_assoc]
    . rw [List.forall_mem_append]
      exact ⟨hclean, hclean'⟩

theorem finish_unreaped (h : Unreaped child ends) {c : Connection}
    (hfinished : c.isFinished = false) (hchild : child j.state)
    : ∃ result status front rest j',
        (finish : ClientM (Journal σ F) _) c j
          = ((result, { c with isOpen := false, isFinished := true }), j')
          ∧ j'.operations = j.operations ++ front ++ c.reaping status ++ rest
          ∧ (∀ o ∈ front, o.reaps = false)
          ∧ ∀ o ∈ rest, o.isAftermath = true := by
  obtain ⟨inTime, s, hends, hchild, hended⟩ :=
    h.endsWithin _ c.shutdownTimeout (h.close _ hchild)
  have hends := Journal.note_eq (j := ⟨_, j.operations ++ [.close]⟩) hends
    (.endsWithin c.shutdownTimeout)
  have hends : (Peer.endsWithin c.shutdownTimeout : StateM (Journal σ F) _) _ = _ := hends
  unfold finish
  rw [run_bind, run_get]
  dsimp only
  rw [hfinished, if_neg (by decide), run_bind, closeSocket_eq, run_bind, run_lift, hends]
  dsimp only
  cases inTime with
  | true =>
    obtain ⟨result, status, rest, j', hsettle, hrest, hclean⟩ := settle_unreaped
      (j := ⟨s, j.operations ++ [.close] ++ [.endsWithin c.shutdownTimeout (.ok true)]⟩) h
      { c with isOpen := false } hchild (hended rfl) fun status => status.isSuccess || false
    refine ⟨result, status, [.close, .endsWithin c.shutdownTimeout (.ok true)], rest, j', hsettle,
      ?_, by simp [Operation.reaps], hclean⟩
    rw [hrest]
    simp [reaping, tree]
  | false =>
    obtain ⟨s, hkill, hchild, hends⟩ := h.kill s hchild
    have hkill := Journal.note_eq (j := ⟨_, j.operations ++ [.close]
      ++ [.endsWithin c.shutdownTimeout (.ok false)]⟩) hkill .kill
    have hkill : (Peer.kill : StateM (Journal σ F) _) _ = _ := hkill
    obtain ⟨result, status, rest, j', hsettle, hrest, hclean⟩ := settle_unreaped
      (j := ⟨s, j.operations ++ [.close] ++ [.endsWithin c.shutdownTimeout (.ok false)]
        ++ [.kill (.ok ())]⟩) h
      { c with isOpen := false } hchild hends fun status =>
        status.isSuccess || (true && decide (status = .killed .kill))
    rw [Bool.not_false, if_pos rfl, run_bind, run_lift, hkill]
    refine ⟨result, status, [.close, .endsWithin c.shutdownTimeout (.ok false), .kill (.ok ())],
      rest, j', hsettle, ?_, by simp [Operation.reaps], hclean⟩
    rw [hrest]
    simp [reaping, tree]

end Ending

section Calls

variable [FileSystem σ]

theorem handleFault?_eq_none_iff {h : Handle} : c.handleFault? h = none ↔ h = c.nextHandle := by
  obtain ⟨seq, token⟩ := h
  unfold handleFault? nextHandle
  by_cases htoken : token = c.token
  . by_cases hseq : seq = c.nextAwait
    . simp [htoken, hseq]
    . simp [htoken, hseq]
  . simp [htoken]

theorem send_of_finished (hfinished : c.isFinished = true) (r : Request F) (s : σ)
    : send r c s = ((.error .broken, c), s) := by
  unfold send
  rw [run_bind, run_get]
  dsimp only
  rw [if_pos hfinished]
  rfl

theorem send_of_open (hopen : c.isOpen = true) (hfinished : c.isFinished = false) (r : Request F)
    (s : σ)
    : (∃ fault : ClientFault, fault.isRefusal = true ∧ send r c s = ((.error fault, c), s))
        ∨ ∃ (frame : List UInt8) (descriptors : List F) (s' : σ),
            (Peer.send frame descriptors s = (.ok (), s')
              ∧ send r c s
                = ((.ok ⟨c.nextSend, c.token⟩, { c with nextSend := c.nextSend + 1 }), s'))
            ∨ ∃ e, Peer.send frame descriptors s = (.error e, s')
              ∧ send r c s = ((.error (died c s').1.1, (died c s').1.2), (died c s').2) := by
  unfold send
  rw [run_bind, run_get]
  dsimp only
  rw [hfinished, if_neg (by decide)]
  cases r.validate with
  | error e => exact .inl ⟨_, rfl, rfl⟩
  | ok =>
    cases r.encode with
    | error e => exact .inl ⟨_, rfl, rfl⟩
    | ok encoded =>
      obtain ⟨frame, descriptors⟩ := encoded
      dsimp only
      rw [hopen, Bool.not_true, if_neg (by decide), run_bind, run_lift]
      rcases hsend : (Peer.send frame descriptors : StateM σ _) s with ⟨e | _, s'⟩
      . exact .inr ⟨frame, descriptors, s', .inr ⟨e, hsend, rfl⟩⟩
      . exact .inr ⟨frame, descriptors, s', .inl ⟨hsend, rfl⟩⟩

theorem await_of_ne {h : Handle} (hne : h ≠ c.nextHandle) (s : σ)
    : ∃ fault, await h c s = ((.error fault, c), s) := by
  unfold await
  rw [run_bind, run_get]
  dsimp only
  cases hfault : c.handleFault? h with
  | some fault => exact ⟨fault, rfl⟩
  | none => exact absurd (handleFault?_eq_none_iff.mp hfault) hne

theorem await_of_finished (hfinished : c.isFinished = true) (s : σ)
    : await c.nextHandle c s
        =
      ((.ok (.error .broken), { c with nextAwait := c.nextAwait + 1 }), s) := by
  unfold await
  rw [run_bind, run_get]
  dsimp only
  rw [handleFault?_eq_none_iff.mpr rfl]
  dsimp only
  rw [run_bind, run_set]
  dsimp only
  rw [hfinished, Bool.true_or, if_pos rfl]
  rfl

theorem await_of_open (hopen : c.isOpen = true) (hfinished : c.isFinished = false) (s : σ)
    : ∃ s',
        (∃ v, Peer.receive s = (.ok v, s')
          ∧ await c.nextHandle c s = ((.ok (.ok v), { c with nextAwait := c.nextAwait + 1 }), s'))
        ∨ ∃ e, Peer.receive s = (.error e, s')
          ∧ await c.nextHandle c s
            = ((.ok (.error (died { c with nextAwait := c.nextAwait + 1 } s').1.1),
                  (died { c with nextAwait := c.nextAwait + 1 } s').1.2),
                (died { c with nextAwait := c.nextAwait + 1 } s').2) := by
  unfold await
  rw [run_bind, run_get]
  dsimp only
  rw [handleFault?_eq_none_iff.mpr rfl]
  dsimp only
  rw [run_bind, run_set]
  dsimp only
  rw [hfinished, hopen, if_neg (by decide), run_bind, run_lift]
  rcases hreceive : (Peer.receive : StateM σ _) s with ⟨e | v, s'⟩
  . exact ⟨s', .inr ⟨e, rfl, rfl⟩⟩
  . exact ⟨s', .inl ⟨v, rfl, rfl⟩⟩

theorem finish_of_finished (hfinished : c.isFinished = true) (s : σ)
    : finish c s = ((.ok (), c), s) := by
  unfold finish
  rw [run_bind, run_get]
  dsimp only
  rw [if_pos hfinished]
  rfl

end Calls

end Connection

open Connection (reaping nextHandle)

inductive Turn.Possible : Turn F → Prop
  | refused {r : Request F} {c : Connection} {fault : ClientFault}
      (hfinished : c.isFinished = false) (h : fault.isRefusal = true)
      : Possible ⟨.send r, .sent (.error fault), c, c, []⟩
  | sent {r : Request F} {c : Connection} {frame : List UInt8} {descriptors : List F}
      (hfinished : c.isFinished = false)
      : Possible ⟨.send r, .sent (.ok ⟨c.nextSend, c.token⟩), c,
          { c with nextSend := c.nextSend + 1 }, [.send frame descriptors (.ok ())]⟩
  | brokenOff {r : Request F} {c : Connection} {frame : List UInt8} {descriptors : List F}
      {e : IoFault} {status : ProcessStatus} {text : String} {rest : List (Operation F)}
      (hfinished : c.isFinished = false) (hrest : ∀ o ∈ rest, o.isAftermath = true)
      : Possible ⟨.send r, .sent (.error (.died status text)), c,
          { c with isOpen := false, isFinished := true },
          .send frame descriptors (.error e) :: [.close, .kill (.ok ())] ++ c.reaping status
            ++ rest⟩
  | unsent {r : Request F} {c : Connection} (hfinished : c.isFinished = true)
      : Possible ⟨.send r, .sent (.error .broken), c, c, []⟩
  | misused {h : Handle} {c : Connection} {fault : HandleFault} (hne : h ≠ c.nextHandle)
      : Possible ⟨.await h, .awaited (.error fault), c, c, []⟩
  | received {c : Connection} {v : Verdict} (hfinished : c.isFinished = false)
      : Possible ⟨.await c.nextHandle, .awaited (.ok (.ok v)), c,
          { c with nextAwait := c.nextAwait + 1 }, [.receive (.ok v)]⟩
  | garbled {c : Connection} {e : ReadFault} {status : ProcessStatus} {text : String}
      {rest : List (Operation F)} (hfinished : c.isFinished = false)
      (hrest : ∀ o ∈ rest, o.isAftermath = true)
      : Possible ⟨.await c.nextHandle, .awaited (.ok (.error (.died status text))), c,
          { c with nextAwait := c.nextAwait + 1, isOpen := false, isFinished := true },
          .receive (.error e) :: [.close, .kill (.ok ())] ++ c.reaping status ++ rest⟩
  | unanswered {c : Connection} (hfinished : c.isFinished = true)
      : Possible ⟨.await c.nextHandle, .awaited (.ok (.error .broken)), c,
          { c with nextAwait := c.nextAwait + 1 }, []⟩

inductive Connection.Holds (child : σ → Prop) (c : Connection) (s : σ) : Prop
  | running (hopen : c.isOpen = true) (hfinished : c.isFinished = false) (h : child s)
  | gone (hfinished : c.isFinished = true)

namespace Connection

variable {σ F : Type} [FileSystem σ] [Peer σ F] {child ends : σ → Prop} {c : Connection} {s : σ}

theorem turn_eq {call : Call F} {reply : Reply} {after : Connection} {j : Journal σ F}
    (h : Connection.call call c { state := s : Journal σ F } = ((reply, after), j))
    : turn c s call = (⟨call, reply, c, after, j.operations⟩, j.state) := by
  unfold turn
  rw [h]

theorem call_send {r : Request F} {result : Except ClientFault Handle} {after : Connection} {s' : σ}
    (h : send r c s = ((result, after), s'))
    : Connection.call (.send r) c s = ((.sent result, after), s') := by
  change ((Reply.sent (send r c s).1.1, (send r c s).1.2), (send r c s).2) = _
  rw [h]

theorem call_await {handle : Handle} {result : Except HandleFault (Except ClientFault Verdict)}
    {after : Connection} {s' : σ} (h : await handle c s = ((result, after), s'))
    : Connection.call (.await handle) c s = ((.awaited result, after), s') := by
  change ((Reply.awaited (await handle c s).1.1, (await handle c s).1.2), (await handle c s).2) = _
  rw [h]

theorem turn_send (h : Unreaped child ends) (hc : c.Holds child s) (r : Request F)
    : (turn c s (.send r)).1.Possible
        ∧ (turn c s (.send r)).1.after.Holds child (turn c s (.send r)).2 := by
  cases hc with
  | gone hfinished =>
    rw [turn_eq (call_send (send_of_finished hfinished r _))]
    exact ⟨.unsent hfinished, .gone hfinished⟩
  | running hopen hfinished hchild =>
    obtain ⟨fault, hfault, hsend⟩ | ⟨frame, descriptors, j, ⟨hpeer, hsend⟩ | ⟨e, hpeer, hsend⟩⟩ :=
      send_of_open hopen hfinished r ({ state := s } : Journal σ F)
    . rw [turn_eq (call_send hsend)]
      exact ⟨.refused hfinished hfault, .running hopen hfinished hchild⟩
    . rw [turn_eq (call_send hsend)]
      obtain ⟨hstate, hoperations⟩ := Journal.eq_of_note hpeer
      dsimp only
      rw [hstate, hoperations]
      exact ⟨.sent hfinished, .running hopen hfinished (h.send s frame descriptors hchild)⟩
    . obtain ⟨hstate, hoperations⟩ := Journal.eq_of_note hpeer
      have hchild : child j.state := by
        rw [hstate]
        exact h.send s frame descriptors hchild
      obtain ⟨status, text, rest, j', hdied, hrest, hclean⟩ := died_unreaped h c hchild
      rw [hdied] at hsend
      rw [turn_eq (call_send hsend)]
      dsimp only
      rw [hrest, hoperations]
      exact ⟨.brokenOff hfinished hclean, .gone rfl⟩

theorem turn_await (h : Unreaped child ends) (hc : c.Holds child s) (handle : Handle)
    : (turn c s (.await handle : Call F)).1.Possible
        ∧ (turn c s (.await handle : Call F)).1.after.Holds child (turn c s (.await handle)).2 := by
  by_cases hhandle : handle = c.nextHandle
  . subst hhandle
    cases hc with
    | gone hfinished =>
      rw [turn_eq (call_await (await_of_finished hfinished _))]
      exact ⟨.unanswered hfinished, .gone hfinished⟩
    | running hopen hfinished hchild =>
      obtain ⟨j, ⟨v, hpeer, hawait⟩ | ⟨e, hpeer, hawait⟩⟩ :=
        await_of_open hopen hfinished ({ state := s } : Journal σ F)
      . rw [turn_eq (call_await hawait)]
        obtain ⟨hstate, hoperations⟩ := Journal.eq_of_note hpeer
        dsimp only
        rw [hstate, hoperations]
        exact ⟨.received hfinished, .running hopen hfinished (h.receive s hchild)⟩
      . obtain ⟨hstate, hoperations⟩ := Journal.eq_of_note hpeer
        have hchild : child j.state := by
          rw [hstate]
          exact h.receive s hchild
        obtain ⟨status, text, rest, j', hdied, hrest, hclean⟩ :=
          died_unreaped h { c with nextAwait := c.nextAwait + 1 } hchild
        rw [hdied] at hawait
        rw [turn_eq (call_await hawait)]
        dsimp only
        rw [hrest, hoperations]
        exact ⟨.garbled hfinished hclean, .gone rfl⟩
  . obtain ⟨fault, hawait⟩ := await_of_ne hhandle ({ state := s } : Journal σ F)
    rw [turn_eq (call_await hawait)]
    exact ⟨.misused hhandle, hc⟩

theorem turn_possible (h : Unreaped child ends) (hc : c.Holds child s) (call : Call F)
    : (turn c s call).1.Possible ∧ (turn c s call).1.after.Holds child (turn c s call).2 := by
  cases call with
  | send r => exact turn_send h hc r
  | await handle => exact turn_await h hc handle

end Connection

end Enclosure
