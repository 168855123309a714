import Enclosure.Client.Journal

/-!
This module contains all the connections that one client opens, one after the other or beside each
other, and the handles that it holds. Each handle can be spent once, on whatever connection.
-/

namespace Enclosure

structure Opened (σ : Type) where
  connection : Connection
  peer : σ
  isHeld : Bool := true

structure Ticket where
  handle : Handle
  -- The number of the connection that has issued the handle.
  issuer : Nat
  isSpent : Bool := false
  deriving DecidableEq, Repr

/-- All that a client has opened, and the handles that it has got. -/
structure Connections (σ : Type) where
  opened : List (Opened σ) := []
  tickets : List Ticket := []
  -- The connections that have taken a ticket, with its number.
  redeemed : List (Nat × Nat) := []

namespace Connections

variable {σ F : Type}

-- The system gives no process the number of a child that has not been waited for.
def isFree (w : Connections σ) (token : UInt32) : Bool :=
  w.opened.all fun o => o.connection.isFinished || o.connection.token ≠ token

def act (w : Connections σ) (i : Nat) (a : ClientM σ α) : Option (α × Connections σ) :=
  match w.opened[i]? with
  | some ⟨connection, peer, true⟩ =>
    let ((x, connection), peer) := a connection peer
    some (x, { w with opened := w.opened.set i { connection, peer } })
  | _ => none

def letGo (w : Connections σ) (i : Nat) : Connections σ :=
  { w with opened := w.opened.modify i fun o => { o with isHeld := false } }

def issue (w : Connections σ) (handle : Handle) (issuer : Nat) : Connections σ :=
  { w with tickets := w.tickets ++ [{ handle, issuer }] }

def spend (w : Connections σ) (k : Nat) : Connections σ :=
  { w with tickets := w.tickets.modify k fun t => { t with isSpent := true } }

def redeem (w : Connections σ) (i k : Nat) : Connections σ :=
  { w with redeemed := w.redeemed ++ [(i, k)] }

inductive Event (σ F : Type) where
  -- What the new supervisor does is laid down in `s`.
  | opens (s : σ) (c : Configuration) (ownDirectory searchPath log : Option String)
  | sends (i : Nat) (r : Request F)
  | awaits (i k : Nat)
  | givesUp (i : Nat) (farewell : Farewell)

variable [FileSystem σ] [Peer σ F]

-- An event that cannot happen changes nothing.
def step (w : Connections σ) : Event σ F → Connections σ
  | .opens s c ownDirectory searchPath log =>
    match (Connection.spawn c ownDirectory searchPath log : StateM σ _) s with
    | (.ok connection, peer) =>
      if w.isFree connection.token then { w with opened := w.opened ++ [{ connection, peer }] }
      else w
    | (.error _, _) => w
  | .sends i r =>
    match w.act i (Connection.send r) with
    | some (.ok handle, w) => w.issue handle i
    | some (.error _, w) => w
    | none => w
  | .awaits i k =>
    match w.tickets[k]? with
    | some ⟨handle, _, false⟩ =>
      match w.act i (Connection.await handle) with
      | some (.ok _, w) => (w.spend k).redeem i k
      | some (.error _, w) => w.spend k
      | none => w
    | _ => w
  | .givesUp i farewell =>
    match w.act i (Connection.giveUp farewell) with
    | some (_, w) => w.letGo i
    | none => w

def run (w : Connections σ) (es : List (Event σ F)) : Connections σ :=
  es.foldl step w

end Connections

end Enclosure
