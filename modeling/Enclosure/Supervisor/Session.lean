import Enclosure.Frame.Transfer
import Enclosure.Sandbox.Build
import Enclosure.Supervisor.Loop

/-!
This module contains a supervisor together with the control groups that it works on, run event by
event until nothing is left to do.
-/

namespace Enclosure.Supervisor

open ControlGroup

structure Session (σ F : Type) where
  loop : Loop F
  tree : Tree
  files : σ
  -- How many of the written bytes the client has read.
  consumed : Nat := 0
  -- The client has closed its end, whether or not the loop has noticed.
  gone : Bool := false

namespace Session

variable {σ F : Type} [FileSystem σ]

def runTask (launch : Leaf → Request F → StateM σ Verdict) (s : Session σ F) (task : Task F)
    : Session σ F :=
  let ((verdict, tree), files) := (Sandbox.run launch s.tree task.request).run s.files
  { s with loop := s.loop.apply (.verdict task.id verdict), tree, files }

def unfinished (s : Session σ F) : List (Task F) :=
  s.loop.server.inFlight.filter (·.result.isNone)

def isDrained (s : Session σ F) : Bool :=
  s.loop.socket.incoming.segments.isEmpty

def sendAnswer (s : Session σ F) : Answer :=
  if s.gone then .error (.system .brokenPipe) else .ok s.loop.server.outbuf.length

-- A client that is gone and has left verdicts unread resets the stream, which is told behind the
-- last byte that it has sent.
def receiveAnswer (s : Session σ F) : Answer :=
  if s.gone && s.isDrained && s.consumed < s.loop.socket.written.length then
    .error (.system .connectionReset)
  else .ok readChunk

-- The event that is taken when several are there: input first, then verdicts, then output.
def nextEvent (s : Session σ F) : Option (Loop.Event F) :=
  let ending := if s.gone && s.isDrained then [.close] else []
  let others := [.turn s.receiveAnswer, .noticePaused, .readable s.receiveAnswer, .respond,
    .writable s.sendAnswer]
  (ending ++ others).find? s.loop.enabled

/-- Goes on for at most `fuel` events. Tasks only run while the loop waits in vain, and then all of
them come to their verdicts before it goes on. That the client is gone is noticed where its bytes
end, or when nothing else is left to do; until then only a write can tell. -/
def settleWithin (launch : Leaf → Request F → StateM σ Verdict)
    : (fuel : Nat) → Session σ F → Session σ F
  | 0, s => s
  | fuel + 1, s =>
    match s.nextEvent with
    | some e => settleWithin launch fuel { s with loop := s.loop.apply e }
    | none =>
      if !s.loop.isWaiting then s
      else if !s.unfinished.isEmpty then
        settleWithin launch fuel (s.unfinished.foldl (runTask launch) s)
      else if s.gone && s.loop.enabled .close then
        settleWithin launch fuel { s with loop := s.loop.apply .close }
      else s

-- Enough events for all the bytes that are there: a frame takes at least four of them.
def enough (l : Loop F) : Nat :=
  8 * (l.socket.incoming.pending.length + l.server.inbuf.length + l.server.inFlight.length + 8)

def settle (launch : Leaf → Request F → StateM σ Verdict) (s : Session σ F) : Session σ F :=
  s.settleWithin launch (enough s.loop)

-- The supervisor has done all it can when more is sent to it.
def send (launch : Leaf → Request F → StateM σ Verdict) (s : Session σ F) (segment : Segment F)
    : Session σ F :=
  let s := s.settle launch
  if segment.bytes = [] then s else { s with loop := s.loop.apply (.arrival segment) }

def result? (s : Session σ F) : Option (Except SupervisorFault Unit) :=
  match s.loop.phase with
  | .ended result => some result
  | _ => none

-- The supervisor is not waited for, so that it may find the client gone before it has come to
-- what was sent last. Its tree goes with it.
def close (launch : Leaf → Request F → StateM σ Verdict) (s : Session σ F) : Session σ F :=
  let s := { s with gone := true }.settle launch
  if s.result?.isSome then { s with files := (s.tree.drop.run s.files).2 } else s

-- The next verdict that the client reads; the stream ends with what has been written. Reading
-- makes room for more, and the signal of that also tells of input that waits.
def receive (s : Session σ F)
    (launch : Leaf → Request F → StateM σ Verdict := fun _ _ => return .failed "")
    : Except ReadFault Verdict × Session σ F :=
  let s := s.settle launch
  let { written, incoming, readReady } := s.loop.socket
  let stream := written.drop s.consumed
  let (result, rest) := Verdict.readFrom stream [] []
  let read := stream.length - rest.length
  let readReady := readReady || (0 < read && !s.isDrained)
  (result,
    { s with
      loop := { s.loop with socket := { written, incoming, readReady } }
      consumed := s.consumed + read })

end Session

end Enclosure.Supervisor
