import Enclosure.Client.Connection
import Enclosure.Supervisor.Loop

/-!
This module contains a client and the loop of its supervisor at the two ends of one socket. What the
supervisor and the system do while a call of the client lasts is laid down beside the call, so that
every course of events can be run.
-/

namespace Enclosure

open Supervisor (Loop)
open Supervisor.Loop (Event)

/-- What happens during one call of a client. -/
structure Course (F : Type) where
  -- What the supervisor does: a round before each piece of a frame, and the others after the last
  -- one.
  rounds : List (List (Event F)) := []
  sendTurns : List Frame.SendTurn := []
  readFault : Option IoFault := none
  lengthTurns : List Nat := []
  bodyTurns : List Nat := []
  killed : Except IoFault Unit := .ok ()
  endsInTime : Except IoFault Bool := .ok true
  status : Except IoFault ProcessStatus := .ok (.exited 0)
  errorOutput : Except IoFault (List UInt8) := .ok []

/-- What a client is connected to. `ρ` answers its system calls on paths. -/
structure Link (ρ F : Type) where
  files : ρ
  token : UInt32
  loop : Loop F
  log : List (Event F) := []
  -- How many of the written bytes the client has read.
  read : Nat := 0
  course : Course F := {}

namespace Link

variable {ρ F : Type}

def isOwn : Event F → Bool
  | .arrival _ | .close => false
  | _ => true

def happen (s : Link ρ F) (e : Event F) : Link ρ F :=
  match s.loop.step e with
  | some loop => { s with loop, log := s.log ++ [e] }
  | none => s

def goOn (s : Link ρ F) (es : List (Event F)) : Link ρ F :=
  (es.filter isOwn).foldl happen s

def deliver (s : Link ρ F) : List (Segment F) → List (List (Event F)) → Link ρ F
  | [], rounds => s.goOn rounds.flatten
  | piece :: pieces, [] => (s.happen (.arrival piece)).deliver pieces []
  | piece :: pieces, round :: rounds =>
    ((s.goOn round).happen (.arrival piece)).deliver pieces rounds

def send (s : Link ρ F) (frame : List UInt8) (descriptors : List F)
    : Except IoFault Unit × Link ρ F :=
  let (result, pieces) := Frame.sendPieces frame descriptors s.course.sendTurns
  (result, s.deliver pieces s.course.rounds)

-- Reads the next verdict. Reading changes nothing that the supervisor sees, so all that it does
-- meanwhile is done first.
def receive (s : Link ρ F) : Except ReadFault Verdict × Link ρ F :=
  let s := s.goOn s.course.rounds.flatten
  match s.course.readFault with
  | some fault => (.error (.io fault), s)
  | none =>
    let written := s.loop.socket.written
    let (result, rest) :=
      Verdict.readFrom (written.drop s.read) s.course.lengthTurns s.course.bodyTurns
    (result, { s with read := written.length - rest.length })

instance : Peer (Link ρ F) F where
  launch _ _ s := (.ok s.token, s)
  send frame descriptors := (·.send frame descriptors)
  receive := receive
  close s := ((), s.happen .close)
  kill s := (s.course.killed, s)
  endsWithin _ s := (s.course.endsInTime, s)
  wait s := (s.course.status, s)
  errorOutput s := (s.course.errorOutput, s)

def onFiles (a : StateM ρ α) : StateM (Link ρ F) α :=
  fun s => let (result, files) := a.run s.files; (result, { s with files })

instance [FileSystem ρ] : FileSystem (Link ρ F) where
  makeDirectory path mode := onFiles (FileSystem.makeDirectory path mode)
  removeDirectory path := onFiles (FileSystem.removeDirectory path)
  createFile path mode := onFiles (FileSystem.createFile path mode)
  write path content := onFiles (FileSystem.write path content)
  read path := onFiles (FileSystem.read path)
  openFile path := onFiles (FileSystem.openFile path)
  openDirectory path := onFiles (FileSystem.openDirectory path)
  list path := onFiles (FileSystem.list path)
  pathExists path := onFiles (FileSystem.pathExists path)
  isFile path := onFiles (FileSystem.isFile path)
  isDirectory path := onFiles (FileSystem.isDirectory path)

end Link

inductive Call (F : Type) where
  | send (r : Request F)
  | await (h : Handle)

inductive Reply where
  | sent (result : Except ClientFault Handle)
  | awaited (result : Except HandleFault (Except ClientFault Verdict))

namespace Connection

variable {σ ρ F : Type}

def call [FileSystem σ] [Peer σ F] : Call F → ClientM σ Reply
  | .send r => .sent <$> send r
  | .await h => .awaited <$> await h

/-- Makes some calls one after the other, and returns what they came to. -/
def talk [FileSystem ρ] (c : Connection) (s : Link ρ F)
    : List (Call F × Course F) → List (Call F × Reply) × Connection × Link ρ F
  | [] => ([], c, s)
  | (call, course) :: rest =>
    let ((reply, c), s) := Connection.call call c { s with course }
    let (history, c, s) := talk c s rest
    ((call, reply) :: history, c, s)

end Connection

end Enclosure
