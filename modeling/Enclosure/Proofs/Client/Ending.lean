import Enclosure.Client.Journal
import Enclosure.Proofs.Client.Connection

/-!
This module contains the ways in which client actions are compared when a supervisor is ended. A
relation that sequencing and the single steps of an ending respect is respected by all that ends a
supervisor.
-/

namespace Enclosure

structure RespectsEnding (τ σ F : Type) [FileSystem τ] [Peer τ F] [FileSystem σ] [Peer σ F]
    (R : ∀ ⦃α : Type⦄, ClientM τ α → ClientM σ α → Prop) : Prop where
  pure : ∀ {α : Type} (x : α), R (pure x) (pure x)
  get : R get get
  bind : ∀ {α β : Type} {a : ClientM τ α} {b : ClientM σ α} {f : α → ClientM τ β}
    {g : α → ClientM σ β}, R a b → (∀ x, R (f x) (g x)) → R (a >>= f) (b >>= g)
  setClosed : R (modify fun c => { c with isOpen := false })
    (modify fun c => { c with isOpen := false })
  setFinished : R (modify fun c => { c with isFinished := true })
    (modify fun c => { c with isFinished := true })
  close : R (liftM (Peer.close : StateM τ _)) (liftM (Peer.close : StateM σ _))
  kill : R (liftM (Peer.kill : StateM τ _)) (liftM (Peer.kill : StateM σ _))
  endsWithin : ∀ time, R (liftM (Peer.endsWithin time : StateM τ _))
    (liftM (Peer.endsWithin time : StateM σ _))
  wait : R (liftM (Peer.wait : StateM τ _)) (liftM (Peer.wait : StateM σ _))
  errorOutput : R (liftM (Peer.errorOutput : StateM τ _)) (liftM (Peer.errorOutput : StateM σ _))
  removeTree : ∀ root pid,
    R (liftM (ControlGroup.removeTree root pid : GroupM τ Unit).run)
      (liftM (ControlGroup.removeTree root pid : GroupM σ Unit).run)

def Connection.settle {σ F : Type} [FileSystem σ] [Peer σ F] (isGood : ProcessStatus → Bool)
    : ClientM σ (Except ClientFault Unit) := do
  match ← reap with
  | .error e => return .error e
  | .ok status =>
    if isGood status then return .ok ()
    else return .error (.died status (← diagnostics))

namespace RespectsEnding

open Connection

variable {τ σ F : Type} [FileSystem τ] [Peer τ F] [FileSystem σ] [Peer σ F]
variable {R : ∀ ⦃α : Type⦄, ClientM τ α → ClientM σ α → Prop}

theorem closeSocket (h : RespectsEnding τ σ F R) : R closeSocket closeSocket :=
  h.bind h.close fun _ => h.setClosed

theorem diagnostics (h : RespectsEnding τ σ F R) : R diagnostics diagnostics := by
  refine h.bind h.errorOutput fun result => ?_
  cases result with
  | error => exact h.pure _
  | ok => exact h.pure _

theorem reap (h : RespectsEnding τ σ F R) : R reap reap := by
  refine h.bind h.wait fun result => ?_
  cases result with
  | error => exact h.pure _
  | ok =>
    exact h.bind h.setFinished fun _ => h.bind h.get fun c =>
      h.bind (h.removeTree c.root c.token) fun _ => h.pure _

theorem died (h : RespectsEnding τ σ F R) : R died died := by
  refine h.bind h.closeSocket fun _ => h.bind h.kill fun _ => h.bind h.reap fun result => ?_
  cases result with
  | error => exact h.pure _
  | ok => exact h.bind h.diagnostics fun _ => h.pure _

theorem settle (h : RespectsEnding τ σ F R) (isGood : ProcessStatus → Bool)
    : R (settle isGood) (settle isGood) := by
  refine h.bind h.reap fun result => ?_
  cases result with
  | error => exact h.pure _
  | ok =>
    dsimp only
    split
    . exact h.pure _
    . exact h.bind h.diagnostics fun _ => h.pure _

theorem finish (h : RespectsEnding τ σ F R) : R finish finish := by
  refine h.bind h.get fun c => ?_
  split
  . exact h.pure _
  . refine h.bind h.closeSocket fun _ => h.bind (h.endsWithin _) fun result => ?_
    cases result with
    | error => exact h.pure _
    | ok inTime =>
      cases inTime with
      | true => exact h.settle fun status => status.isSuccess || false
      | false =>
        refine h.bind h.kill fun result => ?_
        cases result with
        | error => exact h.pure _
        | ok => exact h.settle fun status => status.isSuccess || decide (status = .killed .kill)

theorem drop (h : RespectsEnding τ σ F R) : R drop drop := by
  refine h.bind h.finish fun result => ?_
  cases result with
  | error => exact h.pure _
  | ok => exact h.pure _

theorem giveUp (h : RespectsEnding τ σ F R) (farewell : Farewell)
    : R (giveUp farewell) (giveUp farewell) := by
  cases farewell with
  | drop => exact h.drop
  | shutdown =>
    refine h.bind h.finish fun result => h.bind h.drop fun ending => ?_
    cases ending with
    | done =>
      cases result with
      | error => exact h.pure _
      | ok => exact h.pure _
    | failed | aborted => exact h.pure _

end RespectsEnding

end Enclosure
