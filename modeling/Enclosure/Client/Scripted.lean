import Enclosure.Client.Peer
import Enclosure.FileSystem
import Enclosure.Process
import Enclosure.Program.Start

/-!
This module contains supervisors that follow a script, for trying clients out. A scripted supervisor
goes on with its script as far as it can before anything else happens.
-/

namespace Enclosure

inductive ScriptStep where
  -- Waits for a frame, or for the end of the stream and then exits.
  | read
  | write (bytes : List UInt8)
  | errorOutput (bytes : List UInt8)
  | exit (code : Int)
  | kill (number : Int32)
  | hang
  deriving DecidableEq, Repr

structure Scripted where
  files : FileTree := {}
  program : String
  script : List ScriptStep
  token : UInt32 := 1
  environment : Option (List (String × String)) := none
  process : Child := {}
  incoming : List (Segment Unit) := []
  isClosed : Bool := false
  received : List (Segment Unit) := []
  outgoing : List UInt8 := []
  errorOutput : List UInt8 := []

namespace Scripted

def follow (s : Scripted) : List ScriptStep → Scripted
  | [] => { s with script := [], process := if s.isClosed then s.process.exit 0 else s.process }
  | .read :: rest =>
    match s.incoming with
    | segment :: incoming =>
      follow { s with incoming, received := s.received ++ [segment] } rest
    | [] =>
      if s.isClosed then { s with script := [], process := s.process.exit 0 }
      else { s with script := .read :: rest }
  | .write bytes :: rest => follow { s with outgoing := s.outgoing ++ bytes } rest
  | .errorOutput bytes :: rest => follow { s with errorOutput := s.errorOutput ++ bytes } rest
  | .exit code :: _ => { s with script := [], process := s.process.exit code }
  | .kill number :: _ => { s with script := [], process := s.process.endBy number }
  | .hang :: _ => { s with script := [.hang] }

def goOn (s : Scripted) : Scripted :=
  if s.process.hasEnded then s else s.follow s.script

def launch (s : Scripted) (path : String) (vars : List (String × String))
    : Except IoFault UInt32 × Scripted :=
  if Path.hasNul path then (.error .nulInArguments, s)
  else if path = s.program then
    (.ok s.token, { s with environment := some vars }.goOn)
  else (.error (.system ((Program.startFault s.files [path]).getD .noEntry)), s)

def send (s : Scripted) (frame : List UInt8) (descriptors : List Unit)
    : Except IoFault Unit × Scripted :=
  if s.process.hasEnded then (.error (.system .brokenPipe), s)
  else
    let segment : Segment Unit := ⟨frame, descriptors⟩
    (.ok (), { s with incoming := s.incoming ++ [segment] }.goOn)

def receive (s : Scripted) : Except ReadFault Verdict × Scripted :=
  let (result, outgoing) := Verdict.readFrom s.outgoing [] []
  (result, { s with outgoing })

def wait (s : Scripted) : Except IoFault ProcessStatus × Scripted :=
  match s.process.tryWait with
  | (.ok (some status), process) => (.ok status, { s with process })
  | (.ok none, _) => (.error (.system .again), s)
  | (.error e, _) => (.error (.system e), s)

instance : Peer Scripted Unit where
  launch path vars := (·.launch path vars)
  send frame descriptors := (·.send frame descriptors)
  receive := receive
  close s := ((), { s with isClosed := true }.goOn)
  kill s := (.ok (), { s with process := s.process.signal .kill })
  endsWithin _ s := (.ok s.process.hasEnded, s)
  wait := wait
  errorOutput s := (.ok s.errorOutput, s)

def onFiles (a : StateM FileTree α) : StateM Scripted α :=
  fun s => let (result, files) := a.run s.files; (result, { s with files })

instance : FileSystem Scripted where
  makeDirectory path mode := onFiles (FileSystem.makeDirectory path mode)
  removeDirectory path := onFiles (FileSystem.removeDirectory path)
  createFile path mode := onFiles (FileSystem.createFile path mode)
  write path content := onFiles (FileSystem.write path content)
  read path := onFiles (FileSystem.read path)
  openFile path := onFiles (FileSystem.openFile path)
  openDirectory path := onFiles (FileSystem.openDirectory path)
  list path := onFiles (FileSystem.list path)
  pathExists path := onFiles (FileSystem.pathExists path)
  isFile path := onFiles (FileSystem.isFile path)
  isDirectory path := onFiles (FileSystem.isDirectory path)

end Scripted

end Enclosure
