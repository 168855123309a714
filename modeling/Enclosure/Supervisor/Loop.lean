import Enclosure.Channel
import Enclosure.Supervisor.Fault
import Enclosure.Supervisor.Server

/-!
This module contains the loop of a supervisor: what it does on its own, and how it goes on from each
event that it waits for. The loop ends with the stream of its client, or with a fault after which
the stream can no longer be trusted.
-/

namespace Enclosure.Supervisor

/-- The supervisor's end of the socket. `readReady` is set when input arrives and cleared when
there turns out to be none; nothing is read while it is not set. -/
structure Socket (F : Type) where
  incoming : Channel F := {}
  readReady : Bool := false
  written : List UInt8 := []
  deriving DecidableEq, Repr

inductive Phase where
  | top
  | waiting
  | ended (result : Except SupervisorFault Unit)

structure Loop (F : Type) where
  server : Server F
  socket : Socket F := {}
  phase : Phase := .top

/-- How the system answers a call on the socket: at most so many bytes are moved, or the call fails
for good. A call that moves nothing has been interrupted, or found no room. -/
abbrev Answer := Except IoFault Nat

def Answer.isSome : Answer → Bool
  | .ok n => 0 < n
  | .error _ => true

namespace Loop

def new (maxParallel : Nat) : Loop F :=
  { server := .new maxParallel }

def isTop (l : Loop F) : Bool :=
  match l.phase with
  | .top => true
  | _ => false

def isWaiting (l : Loop F) : Bool :=
  match l.phase with
  | .waiting => true
  | _ => false

def fail (l : Loop F) (fault : SupervisorFault) : Loop F :=
  { l with phase := .ended (.error fault) }

def finish (l : Loop F) : Loop F :=
  { l with phase := .ended (.ok ()) }

-- Reads at most `n` bytes. An attempt that finds nothing clears the readiness.
def receive (l : Loop F) (n : Nat) (onNothing : Phase) : Loop F :=
  match l.socket.incoming.receive (min readChunk n) with
  | (.ok ([], _), _) => l.finish
  | (.ok (bytes, descriptors), incoming) =>
    { l with
      server := l.server.receive bytes descriptors
      socket := { l.socket with incoming }
      phase := .top }
  | (.error (.system .again), _) =>
    { l with socket := { l.socket with readReady := false }, phase := onNothing }
  | (.error fault, incoming) => { l with socket := { l.socket with incoming } }.fail (.io fault)

def read (l : Loop F) (answer : Answer) (onNothing : Phase) : Loop F :=
  match answer with
  | .error fault => l.fail (.io fault)
  | .ok n => l.receive n onNothing

/-- The part of a turn before waiting: starts what can be started, and reads what may have been
left unread while reading was paused. -/
def turn (l : Loop F) (answer : Answer) : Loop F :=
  match l.server.startBuffered with
  | (server, some e) => { l with server }.fail (.frame e)
  | (server, none) =>
    if !server.isPaused && server.unreadInput then
      let l := { l with server := { server with unreadInput := false } }
      if l.socket.readReady then l.read answer .waiting else { l with phase := .waiting }
    else { l with server, phase := .waiting }

/-- What happens around a waiting supervisor, and which of the events that are there it takes. -/
inductive Event (F : Type) where
  | arrival (segment : Segment F)
  | close
  | verdict (id : Nat) (v : Verdict)
  -- Readiness is noticed while reading is paused.
  | noticePaused
  | readable (answer : Answer)
  | writable (answer : Answer)
  | respond
  -- The top of the loop is passed, where input may be read.
  | turn (answer : Answer)

def arrive (l : Loop F) (segment : Segment F) : Loop F :=
  { l with socket := { l.socket with
    incoming := { l.socket.incoming with segments := l.socket.incoming.segments ++ [segment] }
    readReady := true } }

def closed (l : Loop F) : Loop F :=
  { l with socket := { l.socket with incoming := l.socket.incoming.close, readReady := true } }

-- While paused, readiness means the end of the stream or input that has to wait.
def noticePaused (l : Loop F) : Loop F :=
  if l.socket.incoming.closed then l.finish
  else { l with
    server := { l.server with unreadInput := true }
    socket := { l.socket with readReady := false }
    phase := .top }

def write (l : Loop F) (answer : Answer) : Loop F :=
  match answer with
  | .error fault => l.fail (.io fault)
  | .ok n =>
    { l with
      server := { l.server with outbuf := l.server.outbuf.drop n }
      socket := { l.socket with written := l.socket.written ++ l.server.outbuf.take n }
      phase := .top }

def respond (l : Loop F) : Loop F :=
  match l.server.respond with
  | some (server, some e) => { l with server }.fail (.frame e)
  | some (server, none) => { l with server, phase := .top }
  | none => l

def enabled (l : Loop F) : Event F → Bool
  | .arrival segment => !l.socket.incoming.closed && segment.bytes ≠ []
  | .close => !l.socket.incoming.closed
  | .verdict id _ => l.server.inFlight.any fun t => t.id = id && t.result.isNone
  | .noticePaused => l.isWaiting && l.server.isPaused && l.socket.readReady
  | .readable answer =>
    l.isWaiting && !l.server.isPaused && l.socket.readReady && answer.isSome
  | .writable _ => l.isWaiting && l.server.outbuf ≠ []
  | .respond => l.isWaiting && (l.server.inFlight.head?.bind Task.result).isSome
  | .turn answer => l.isTop && answer.isSome

def apply (l : Loop F) : Event F → Loop F
  | .arrival segment => l.arrive segment
  | .close => l.closed
  | .verdict id v => { l with server := l.server.finishTask id v }
  | .noticePaused => l.noticePaused
  | .readable answer => l.read answer .top
  | .writable answer => l.write answer
  | .respond => l.respond
  | .turn answer => l.turn answer

def step (l : Loop F) (e : Event F) : Option (Loop F) :=
  if l.enabled e then some (l.apply e) else none

def run (l : Loop F) : List (Event F) → Option (Loop F)
  | [] => some l
  | e :: es => (l.step e).bind (·.run es)

end Loop

end Enclosure.Supervisor
