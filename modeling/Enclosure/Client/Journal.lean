import Enclosure.Client.Link

/-!
This module contains the life of a connection, from its first call until it is let go, together
with all that the client does to its supervisor meanwhile. Writing it down changes nothing of what
happens.
-/

namespace Enclosure

inductive PathCall where
  | makeDirectory
  | removeDirectory
  | createFile
  | write
  | read
  | openFile
  | openDirectory
  | list
  | pathExists
  | isFile
  | isDirectory
  deriving DecidableEq, Repr

/-- What is done to a supervisor, its socket and its files, and what becomes of it. -/
inductive Operation (F : Type) where
  | launch (path : String) (vars : List (String × String)) (result : Except IoFault UInt32)
  | send (frame : List UInt8) (descriptors : List F) (result : Except IoFault Unit)
  | receive (result : Except ReadFault Verdict)
  | close
  | kill (result : Except IoFault Unit)
  | endsWithin (time : Duration) (result : Except IoFault Bool)
  | wait (result : Except IoFault ProcessStatus)
  | errorOutput (result : Except IoFault (List UInt8))
  | onPath (call : PathCall) (path : String)

/-- A state with the operations that led to it. -/
structure Journal (σ F : Type) where
  state : σ
  operations : List (Operation F) := []

namespace Journal

variable {σ F : Type}

def note (a : StateM σ α) (operation : α → Operation F) : StateM (Journal σ F) α :=
  fun j =>
    let (x, state) := a j.state
    (x, { state, operations := j.operations ++ [operation x] })

instance [Peer σ F] : Peer (Journal σ F) F where
  launch path vars := note (Peer.launch path vars) (.launch path vars)
  send frame descriptors := note (Peer.send frame descriptors) (.send frame descriptors)
  receive := note Peer.receive .receive
  close := note Peer.close fun _ => .close
  kill := note Peer.kill .kill
  endsWithin time := note (Peer.endsWithin time) (.endsWithin time)
  wait := note Peer.wait .wait
  errorOutput := note Peer.errorOutput .errorOutput

def notePath (call : PathCall) (path : String) (a : StateM σ α) : StateM (Journal σ F) α :=
  note a fun _ => .onPath call path

instance [FileSystem σ] : FileSystem (Journal σ F) where
  makeDirectory path mode := notePath .makeDirectory path (FileSystem.makeDirectory path mode)
  removeDirectory path := notePath .removeDirectory path (FileSystem.removeDirectory path)
  createFile path mode := notePath .createFile path (FileSystem.createFile path mode)
  write path content := notePath .write path (FileSystem.write path content)
  read path := notePath .read path (FileSystem.read path)
  openFile path := notePath .openFile path (FileSystem.openFile path)
  openDirectory path := notePath .openDirectory path (FileSystem.openDirectory path)
  list path := notePath .list path (FileSystem.list path)
  pathExists path := notePath .pathExists path (FileSystem.pathExists path)
  isFile path := notePath .isFile path (FileSystem.isFile path)
  isDirectory path := notePath .isDirectory path (FileSystem.isDirectory path)

end Journal

structure Turn (F : Type) where
  call : Call F
  reply : Reply
  before : Connection
  after : Connection
  operations : List (Operation F)

inductive Farewell where
  | shutdown
  | drop
  deriving DecidableEq, Repr

/-- The calls on a connection until it is let go. -/
structure Life (F : Type) where
  turns : List (Turn F)
  last : Connection
  ending : Ending
  farewell : List (Operation F)

namespace Connection

variable {σ F : Type} [FileSystem σ] [Peer σ F]

def turn (c : Connection) (s : σ) (call : Call F) : Turn F × σ :=
  let ((reply, after), j) := Connection.call call c { state := s : Journal σ F }
  (⟨call, reply, c, after, j.operations⟩, j.state)

def turns (c : Connection) (s : σ) : List (Call F) → List (Turn F) × Connection × σ
  | [] => ([], c, s)
  | call :: rest =>
    let (t, s) := turn c s call
    let (ts, c, s) := turns t.after s rest
    (t :: ts, c, s)

def giveUp : Farewell → ClientM σ Ending
  | .shutdown => shutdown
  | .drop => drop

def live (c : Connection) (s : σ) (calls : List (Call F)) (farewell : Farewell) : Life F :=
  let (turns, last, s) := turns c s calls
  let ((ending, _), j) := giveUp farewell last { state := s : Journal σ F }
  { turns, last, ending, farewell := j.operations }

end Connection

def Life.operations (l : Life F) : List (Operation F) :=
  l.turns.flatMap Turn.operations ++ l.farewell

end Enclosure
