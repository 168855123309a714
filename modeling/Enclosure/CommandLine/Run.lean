import Enclosure.Binary64.Shortest
import Enclosure.Client.Connection
import Enclosure.CommandLine.Invocation
import Enclosure.CommandLine.Plan
import Enclosure.Configuration.Example
import Enclosure.Duration.Seconds

/-!
This module contains what the commands do.
-/

namespace Enclosure.CommandLine

open FileSystem

inductive CommandFault where
  | noFilter (path : String) (cause : IoFault)
  | limit (option : String) (value : Binary64) (cause : SecondsFault)
  | rootIsTop
  | start (fault : ClientFault)
  | send (fault : ClientFault)
  | program (fault : ClientFault)
  | shutdown (fault : ClientFault)
  -- The connection could not be let go after another fault, or after the end.
  | aborted (fault : ClientFault)
  | setup (description : String)
  | outputExists (path : String)
  | output (cause : IoFault)
  deriving DecidableEq, Repr

def CommandFault.causes : CommandFault → List String
  | noFilter path cause => [s!"failed to open seccomp program {path}", cause.message]
  | limit option value cause =>
    [s!"invalid {option}: {Binary64.plain.write value}", cause.message]
  | rootIsTop => ["--root cannot be /"]
  | start fault => "failed to start supervisor" :: fault.causes
  | send fault => "failed to send request" :: fault.causes
  | program fault => "failed to run program" :: fault.causes
  | shutdown fault => "supervisor shutdown failed" :: fault.causes
  | aborted fault => [Connection.abortMessage fault]
  | setup description => [s!"sandbox setup failed: {description}"]
  | outputExists path =>
    [s!"Configuration file already exists at '{path}'. Use --force to overwrite."]
  | output cause => ["failed to write configuration file", cause.message]

def CommandFault.message (f : CommandFault) : String :=
  ": ".intercalate f.causes

def limitOfSeconds (value : Binary64) (option : String) : Except CommandFault Duration :=
  (Duration.ofSeconds value).mapError (.limit option value)

-- The descriptors that a program is run with: the own three, and what an opened filter gets.
structure Streams (F : Type) where
  stdin : F
  stdout : F
  stderr : F
  filter : F
  deriving DecidableEq, Repr

def exitCode (status : ProcessStatus) : Int32 :=
  match status.change with
  | .exited => status.value
  | _ => 128 + status.value

def requestOf (args : RunArguments) (streams : Streams F) : Except CommandFault (Request F) := do
  let timeLimit ← args.timeLimit.mapM (limitOfSeconds · "--time-limit")
  let cpuTimeLimit ← args.cpuTimeLimit.mapM (limitOfSeconds · "--cpu-time-limit")
  return {
    argv := args.argv
    env := args.env
    descriptors := {
      stdin := streams.stdin, stdout := streams.stdout, stderr := streams.stderr
      executable := none, filter := args.filter.map fun _ => streams.filter }
    groupLimits := { processes := args.processLimit, memory := args.memoryLimit }
    timeLimit
    cpuTimeLimit }

variable {σ F : Type} [FileSystem σ] [Peer σ F]

def converse (r : Request F) : ClientM σ (Except CommandFault Int32) := do
  match ← Connection.send r with
  | .error e => letGo (.send e)
  | .ok handle =>
    match ← Connection.await handle with
    | .error _ => letGo (.program .broken)
    | .ok (.error e) => letGo (.program e)
    | .ok (.ok verdict) =>
      match ← Connection.shutdown with
      | .failed e => return .error (.shutdown e)
      | .aborted e => return .error (.aborted e)
      | .done =>
        match verdict with
        | .ran status _ _ _ => return .ok (exitCode status)
        | .failed description => return .error (.setup description)
where
  letGo (fault : CommandFault) : ClientM σ (Except CommandFault Int32) := do
    match ← Connection.drop with
    | .aborted e => return .error (.aborted e)
    | _ => return .error fault

/-- Runs a program in an enclosure of its own, and returns its exit code. -/
def run (config : Configuration) (ownDirectory searchPath log : Option String)
    (args : RunArguments) (streams : Streams F) : StateM σ (Except CommandFault Int32) := do
  if let some path := args.filter then
    if let .error e ← (openFile path : StateM σ _) then return .error (.noFilter path e)
  match requestOf args streams with
  | .error e => return .error e
  | .ok r =>
    match ← (plan? args.root args.bindings : StateM σ _) with
    | none => return .error .rootIsTop
    | some plan =>
      let r := { r with mounts := plan.mounts, newRoot := plan.newRoot }
      match ← (Connection.spawn config ownDirectory searchPath log : StateM σ _) with
      | .error e => return .error (.start e)
      | .ok connection => return (← (converse r).run connection).1

/-- Writes the example configuration to a file, and returns what to print. -/
def init (output : String) (force : Bool) : StateM σ (Except CommandFault String) := do
  if (← (pathExists output : StateM σ _)) && !force then return .error (.outputExists output)
  match ← (write output Configuration.exampleText : StateM σ _) with
  | .error e => return .error (.output e)
  | .ok () => return .ok s!"Created configuration file at '{output}'\n"

def rootLine (config : Configuration) : StateM σ String := do
  match ← (config.root : GroupM σ String).run with
  | .error e => return s!"cgroup root: unavailable ({e.message})\n"
  | .ok root =>
    match ← (ControlGroup.checkRoot root : GroupM σ Unit).run with
    | .error e => return s!"cgroup root: {root} ({e.message})\n"
    | .ok () => return s!"cgroup root: {root}\n"

/-- What a configuration comes to here, as it is printed. -/
def showConfig (config : Configuration) (ownDirectory searchPath : Option String)
    : StateM σ String := do
  let supervisor ← (config.supervisor ownDirectory searchPath : StateM σ _)
  let root ← (rootLine config : StateM σ _)
  return s!"Supervisor binary: {supervisor}\n" ++ root
    ++ s!"Max parallel sandboxes: {config.maxParallel}\n"
    ++ s!"Shutdown timeout: {config.shutdownMillis} ms\n"

end Enclosure.CommandLine
