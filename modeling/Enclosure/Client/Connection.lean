import Enclosure.Client.Fault
import Enclosure.Client.Peer
import Enclosure.Configuration.Lookup
import Enclosure.Configuration.Variables
import Enclosure.Frame.Request
import Enclosure.Text.Bytes

/-!
This module contains the client's end of a connection to a supervisor. Requests are answered in the
order in which they were sent, so the client counts what it sends and what it awaits, and a handle
is redeemed only when it is the next one.
-/

namespace Enclosure

open FileSystem

/-- What a sent request is redeemed with for its verdict. -/
structure Handle where
  seq : Nat
  -- The process number of the supervisor.
  token : UInt32
  deriving DecidableEq, Repr

structure Connection where
  -- The process number of the supervisor.
  token : UInt32
  -- The directory that the supervisor's tree is below.
  root : String
  shutdownTimeout : Duration
  isOpen : Bool := true
  nextSend : Nat := 0
  nextAwait : Nat := 0
  isFinished : Bool := false
  deriving DecidableEq, Repr

abbrev ClientM (σ : Type) := StateT Connection (StateM σ)

inductive Ending where
  | done
  | failed (fault : ClientFault)
  -- Letting the connection go fails, which nobody can handle any more.
  | aborted (fault : ClientFault)
  deriving DecidableEq, Repr

namespace Connection

def abortMessage (fault : ClientFault) : String :=
  s!"supervisor shutdown failed: {fault.message}"

variable {σ F : Type} [FileSystem σ] [Peer σ F]

/-- Starts a supervisor. The configuration is checked first, and so is the root of the tree; both
ends work with the same root. The surroundings are the directory of the own program, the search path
and what the supervisor is to log. -/
def spawn (c : Configuration) (ownDirectory searchPath log : Option String)
    : StateM σ (Except ClientFault Connection) := do
  match c.validate with
  | .error e => return .error (.configuration e)
  | .ok () =>
    let path ← c.supervisor ownDirectory searchPath
    let checked : GroupM σ String := do
      let root ← c.root
      ControlGroup.checkRoot root
      return root
    match ← (checked.run : StateM σ _) with
    | .error e => return .error (.configuration (.group e))
    | .ok root =>
      match ← (Peer.launch path (c.forwarded root log) : StateM σ _) with
      | .error e => return .error (.launch path e)
      | .ok token => return .ok { token, root, shutdownTimeout := c.shutdownTimeout }

def closeSocket : ClientM σ Unit := do
  (Peer.close : StateM σ Unit)
  modify fun c => { c with isOpen := false }

/-- Takes the status of the supervisor, and then removes the tree that it leaves behind. -/
def reap : ClientM σ (Except ClientFault ProcessStatus) := do
  match ← (Peer.wait : StateM σ _) with
  | .error e => return .error (.io e)
  | .ok status =>
    modify fun c => { c with isFinished := true }
    let c ← get
    let _ ← ((ControlGroup.removeTree c.root c.token : GroupM σ Unit).run : StateM σ _)
    return .ok status

def diagnostics : ClientM σ String := do
  match ← (Peer.errorOutput : StateM σ _) with
  | .ok bytes => return String.ofList (Text.trimEnd (Text.ofBytes bytes).toList)
  | .error e => return s!"<cannot read supervisor stderr: {e.message}>"

def died : ClientM σ ClientFault := do
  closeSocket
  let _ ← (Peer.kill : StateM σ _)
  match ← reap with
  | .ok status => return .died status (← diagnostics)
  | .error e => return e

def send (r : Request F) : ClientM σ (Except ClientFault Handle) := do
  let c ← get
  if c.isFinished then return .error .broken
  match r.validate with
  | .error e => return .error (.request e)
  | .ok () =>
    match r.encode with
    | .error e => return .error (.frame e)
    | .ok (frame, descriptors) =>
      if !c.isOpen then return .error .broken
      match ← (Peer.send frame descriptors : StateM σ _) with
      | .error _ => return .error (← died)
      | .ok () =>
        set { c with nextSend := c.nextSend + 1 }
        return .ok ⟨c.nextSend, c.token⟩

def handleFault? (c : Connection) (h : Handle) : Option HandleFault :=
  if h.token ≠ c.token then some .foreign
  else if h.seq ≠ c.nextAwait then some .outOfOrder
  else none

def await (h : Handle) : ClientM σ (Except HandleFault (Except ClientFault Verdict)) := do
  let c ← get
  match c.handleFault? h with
  | some e => return .error e
  | none =>
    set { c with nextAwait := c.nextAwait + 1 }
    if c.isFinished || !c.isOpen then return .ok (.error .broken)
    match ← (Peer.receive : StateM σ _) with
    | .ok v => return .ok (.ok v)
    | .error _ => return .ok (.error (← died))

/-- Closes the socket and waits for the end of the supervisor, which is killed if it takes too
long. -/
def finish : ClientM σ (Except ClientFault Unit) := do
  let c ← get
  if c.isFinished then return .ok ()
  closeSocket
  match ← (Peer.endsWithin c.shutdownTimeout : StateM σ _) with
  | .error e => return .error (.io e)
  | .ok ends =>
    if !ends then
      if let .error e ← (Peer.kill : StateM σ _) then return .error (.io e)
    match ← reap with
    | .error e => return .error e
    | .ok status =>
      if status.isSuccess || (!ends && status = .killed .kill) then return .ok ()
      else return .error (.died status (← diagnostics))

def drop : ClientM σ Ending := do
  match ← finish with
  | .ok () => return .done
  | .error e => return .aborted e

def shutdown : ClientM σ Ending := do
  let result ← finish
  match ← drop, result with
  | .done, .ok () => return .done
  | .done, .error e => return .failed e
  | ending, _ => return ending

end Connection

end Enclosure
