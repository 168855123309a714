import Enclosure.Client.Connection
import Enclosure.Proofs.ControlGroup.Effect

/-!
This module contains what the calls on a connection come to, over any kind of peer: how a request is
sent and a verdict awaited, and that ending a supervisor leaves alone whatever its steps leave
alone.
-/

namespace Enclosure

namespace ClientM

variable {σ : Type}

theorem run_bind (a : ClientM σ α) (f : α → ClientM σ β) (c : Connection) (s : σ)
    : (a >>= f) c s = f (a c s).1.1 (a c s).1.2 (a c s).2 := rfl

theorem run_lift (a : StateM σ α) (c : Connection) (s : σ)
    : (liftM a : ClientM σ α) c s = (((a s).1, c), (a s).2) := rfl

theorem run_get (c : Connection) (s : σ)
    : (get : ClientM σ Connection) c s = ((c, c), s) := rfl

theorem run_set (c c' : Connection) (s : σ)
    : (set c' : ClientM σ PUnit) c s = ((⟨⟩, c'), s) := rfl

end ClientM

structure KeepsEnding [FileSystem σ] [Peer σ F] (R : σ → σ → Prop) : Prop where
  refl : ∀ s, R s s
  trans : ∀ s t u, R s t → R t u → R s u
  close : Keeps R Peer.close
  kill : Keeps R Peer.kill
  wait : Keeps R Peer.wait
  errorOutput : Keeps R Peer.errorOutput
  list : ∀ path, Keeps R (FileSystem.list path)
  removeDirectory : ∀ path, Keeps R (FileSystem.removeDirectory path)

namespace ControlGroup

variable {σ F : Type} [FileSystem σ] {R : σ → σ → Prop}

theorem keeps_removeEach (refl : ∀ s, R s s) (trans : ∀ s t u, R s t → R t u → R s u)
    (removeDirectory : ∀ path, Keeps R (FileSystem.removeDirectory path)) (base : String)
    (entries : List (Except IoFault (String × Bool)))
    : Keeps R (removeEach base entries) := by
  induction entries with
  | nil => exact refl
  | cons entry entries ih =>
    cases entry with
    | error e => exact Keeps.bind trans ih fun _ => refl
    | ok entry =>
      obtain ⟨name, isDirectory⟩ := entry
      unfold removeEach
      split
      . exact ih
      . refine Keeps.bind trans (removeDirectory _) fun result => ?_
        refine Keeps.bind trans ih fun later => ?_
        cases result with
        | ok => exact refl
        | error => exact refl

theorem keeps_removeTree [Peer σ F] (h : KeepsEnding (F := F) R) (root : String) (pid : UInt32)
    : Keeps R ((removeTree root pid : GroupM σ Unit).run) := by
  unfold removeTree
  refine Keeps.run_bind h.trans (h.list _) fun result => ?_
  cases result with
  | error e =>
    dsimp only
    split
    . exact h.refl
    . exact h.refl
  | ok entries =>
    refine Keeps.run_bind h.trans (keeps_removeEach h.refl h.trans h.removeDirectory _ entries)
      fun fault => ?_
    cases fault with
    | some fault => exact h.refl
    | none =>
      refine Keeps.run_bind h.trans (h.removeDirectory _) fun result => ?_
      cases result with
      | ok => exact h.refl
      | error => exact h.refl

end ControlGroup

namespace Connection

open ClientM

variable {σ F : Type} [FileSystem σ] [Peer σ F]

theorem reap_spec {R : σ → σ → Prop} (h : KeepsEnding (F := F) R) (c : Connection) (s : σ)
    : ∃ result isFinished s',
        (reap : ClientM σ _) c s = ((result, { c with isFinished }), s') ∧ R s s' := by
  have hwait := h.wait s
  have hremove := ControlGroup.keeps_removeTree h c.root c.token
  unfold reap
  rw [run_bind, run_lift]
  rcases hresult : (Peer.wait : StateM σ _) s with ⟨e | status, s'⟩
  . rw [hresult] at hwait
    exact ⟨_, c.isFinished, s', rfl, hwait⟩
  . rw [hresult] at hwait
    exact ⟨_, true, _, rfl, h.trans _ _ _ hwait (hremove s')⟩

theorem diagnostics_spec {R : σ → σ → Prop} (h : KeepsEnding (F := F) R) (c : Connection) (s : σ)
    : ∃ text s', (diagnostics : ClientM σ _) c s = ((text, c), s') ∧ R s s' := by
  have herror := h.errorOutput s
  unfold diagnostics
  rw [run_bind, run_lift]
  rcases hresult : (Peer.errorOutput : StateM σ _) s with ⟨e | bytes, s'⟩
  . rw [hresult] at herror
    exact ⟨_, s', rfl, herror⟩
  . rw [hresult] at herror
    exact ⟨_, s', rfl, herror⟩

theorem died_spec {R : σ → σ → Prop} (h : KeepsEnding (F := F) R) (c : Connection) (s : σ)
    : ∃ fault isFinished s',
        (died : ClientM σ _) c s = ((fault, { c with isOpen := false, isFinished }), s')
          ∧ R s s' := by
  have hclose := h.close s
  have hkill := h.kill ((Peer.close : StateM σ _) s).2
  have hsocket : (closeSocket : ClientM σ _) c s
      = (((), { c with isOpen := false }), ((Peer.close : StateM σ _) s).2) := rfl
  -- The socket is closed first, and nothing afterwards opens it again.
  obtain ⟨result, isFinished, s₁, hreap, hs₁⟩ :=
    reap_spec h { c with isOpen := false }
      ((Peer.kill : StateM σ _) ((Peer.close : StateM σ _) s).2).2
  have hs₁ := h.trans _ _ _ (h.trans _ _ _ hclose hkill) hs₁
  unfold died
  rw [run_bind, hsocket, run_bind, run_lift, run_bind, hreap]
  cases result with
  | error e => exact ⟨e, isFinished, s₁, rfl, hs₁⟩
  | ok status =>
    obtain ⟨text, s₂, htext, hs₂⟩ :=
      diagnostics_spec h { c with isOpen := false, isFinished } s₁
    dsimp only
    rw [run_bind, htext]
    exact ⟨.died status text, isFinished, s₂, rfl, h.trans _ _ _ hs₁ hs₂⟩

theorem send_cases (r : Request F) (c : Connection) (s : σ)
    : (∃ fault, send r c s = ((.error fault, c), s))
        ∨ c.isOpen = true
          ∧ ∃ frame descriptors s',
              r.encode = .ok (frame, descriptors)
                ∧ ((Peer.send frame descriptors s = (.ok (), s')
                      ∧ send r c s
                        = ((.ok ⟨c.nextSend, c.token⟩, { c with nextSend := c.nextSend + 1 }), s'))
                    ∨ ((Peer.send frame descriptors : StateM σ _) s).2 = s'
                      ∧ send r c s
                        = ((.error (died c s').1.1, (died c s').1.2), (died c s').2)) := by
  unfold send
  rw [run_bind, run_get]
  dsimp only
  split
  . exact .inl ⟨_, rfl⟩
  . cases hvalid : r.validate with
    | error e => exact .inl ⟨_, rfl⟩
    | ok =>
      cases hencode : r.encode with
      | error e => exact .inl ⟨_, rfl⟩
      | ok encoded =>
        obtain ⟨frame, descriptors⟩ := encoded
        dsimp only
        cases hopen : c.isOpen with
        | false => exact .inl ⟨_, rfl⟩
        | true =>
          rw [Bool.not_true, if_neg (by decide)]
          rw [run_bind, run_lift]
          rcases hsend : (Peer.send frame descriptors : StateM σ _) s with ⟨e | _, s'⟩
          . exact .inr ⟨rfl, frame, descriptors, s', rfl, .inr ⟨by rw [hsend], rfl⟩⟩
          . exact .inr ⟨rfl, frame, descriptors, s', rfl, .inl ⟨hsend, rfl⟩⟩

theorem await_cases (h : Handle) (c : Connection) (s : σ)
    : (∃ fault, await h c s = ((.error fault, c), s))
        ∨ h = ⟨c.nextAwait, c.token⟩
          ∧ ((c.isFinished || !c.isOpen) = true
                ∧ await h c s
                  = ((.ok (.error .broken), { c with nextAwait := c.nextAwait + 1 }), s)
              ∨ c.isOpen = true
                ∧ ((∃ v s',
                      Peer.receive s = (.ok v, s')
                        ∧ await h c s
                          = ((.ok (.ok v), { c with nextAwait := c.nextAwait + 1 }), s'))
                    ∨ ∃ s',
                        ((Peer.receive : StateM σ _) s).2 = s'
                          ∧ await h c s
                            = ((.ok (.error (died { c with nextAwait := c.nextAwait + 1 } s').1.1),
                                  (died { c with nextAwait := c.nextAwait + 1 } s').1.2),
                                (died { c with nextAwait := c.nextAwait + 1 } s').2))) := by
  unfold await
  rw [run_bind, run_get]
  dsimp only
  cases hfault : c.handleFault? h with
  | some fault => exact .inl ⟨fault, rfl⟩
  | none =>
    right
    constructor
    . unfold handleFault? at hfault
      split at hfault
      . contradiction
      . next htoken =>
        split at hfault
        . contradiction
        . next hseq =>
          rw [← Decidable.of_not_not htoken, ← Decidable.of_not_not hseq]
    . dsimp only
      rw [run_bind, run_set]
      dsimp only
      split
      . next hclosed => exact .inl ⟨hclosed, rfl⟩
      . next hopen =>
        simp at hopen
        rw [run_bind, run_lift]
        rcases hreceive : (Peer.receive : StateM σ _) s with ⟨e | v, s'⟩
        . exact .inr ⟨hopen.2, .inr ⟨s', rfl, rfl⟩⟩
        . exact .inr ⟨hopen.2, .inl ⟨v, s', rfl, rfl⟩⟩

end Connection
end Enclosure
