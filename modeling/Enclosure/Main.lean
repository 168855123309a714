import Enclosure.CommandLine.Run
import Enclosure.Configuration.File

/-!
This module contains the program: it takes in what the files of the host say, has the command done
on that, and prints or writes what comes of it. Supervisors cannot be launched from here.
-/

namespace Enclosure.CommandLine

def look (t : FileTree) (path : String) : IO FileTree := do
  try
    let found ← IO.FS.realPath path
    if ← found.isDir then return t.withDirectory (Path.names path)
    return t.withFile (Path.names path) (← IO.FS.readFile path)
  catch _ => return t

def lookAll (t : FileTree) (paths : List String) : IO FileTree :=
  paths.foldlM look t

def showCauses : List String → String
  | [] => "Error"
  | [message] => s!"Error: {message}"
  | [message, cause] => s!"Error: {message}\n\nCaused by:\n    {cause}"
  | message :: causes =>
    s!"Error: {message}\n\nCaused by:"
      ++ String.join (causes.mapIdx fun i cause => s!"\n    {i}: {cause}")

def fail (causes : List String) : IO UInt32 := do
  IO.eprintln (showCauses causes)
  return 1

def usageText : String :=
  "Usage: confine [OPTIONS] <COMMAND>\n\nCommands:\n"
    ++ "  init         Initialize a new configuration file\n"
    ++ "  run          Run a program in a sandbox with the terminal's stdin, stdout and stderr\n"
    ++ "  show-config  Show effective configuration\n"
    ++ "  help         Print this message or the help of the given subcommand(s)\n"

def refuse (f : UsageFault) : IO UInt32 := do
  match f with
  | .showHelp =>
    IO.print usageText
    return 0
  | .showVersion =>
    IO.println "confine 0.1.0"
    return 0
  | _ =>
    IO.eprint usageText
    return 2

def loadConfiguration (path : Option String)
    : IO (Except ConfigurationFault Configuration) := do
  match path with
  | some path =>
    let t ← lookAll {} (path :: Configuration.formats.map fun (name, _) => s!"{path}.{name}")
    return ((Configuration.load path).run t).1
  | none =>
    let keys := ["supervisor_path", "cgroup_root", "max_parallel_sandboxes", "shutdown_timeout_ms"]
    let vars ← keys.filterMapM fun key => do
      let name := Configuration.variableName key
      return (← IO.getEnv name).map fun value => (name, value)
    return Configuration.ofVariables vars

def initMain (output : String) (force : Bool) : IO UInt32 := do
  match (init output force).run (← look {} output) with
  | (.error e, _) => fail e.causes
  | (.ok text, _) =>
    try
      IO.FS.writeFile output Configuration.exampleText
      IO.print text
      return 0
    catch e => fail ["failed to write configuration file", toString e]

def surroundings : IO (Option String × Option String) := do
  let directory := (← IO.appPath).parent.map toString
  return (directory, ← IO.getEnv "PATH")

def showMain (c : Configuration) : IO UInt32 := do
  let (directory, searchPath) ← surroundings
  let searched := searchPath.elim [] fun s => (split (· = ':') s.toList).map String.ofList
  let programs := (directory.toList ++ searched).map (Path.join · Configuration.supervisorName)
  let t ← lookAll {} ("/proc/self/cgroup" :: programs)
  let root := ((c.root : GroupM FileTree String).run.run t).1.toOption
  let files := ["controllers", "subtree_control", "type", "procs"].map ("cgroup." ++ ·)
  let t ← lookAll t (root.elim [] fun root => files.map (Path.join root))
  IO.print ((showConfig c directory searchPath).run t).1
  return 0

def runMain (c : Configuration) (args : RunArguments) : IO UInt32 := do
  let streams : Streams Nat := ⟨0, 1, 2, 3⟩
  match requestOf args streams with
  | .error e => fail e.causes
  | .ok _ =>
    let path := c.supervisorPath.getD Configuration.supervisorName
    fail (CommandFault.start (.launch path (.system .notImplemented))).causes

end Enclosure.CommandLine

open Enclosure CommandLine in
def main (args : List String) : IO UInt32 := do
  match Invocation.read ("confine" :: args) with
  | .error f => refuse f
  | .ok invocation =>
    match ← loadConfiguration invocation.config with
    | .error e => fail ("failed to load configuration" :: e.causes)
    | .ok c =>
      match invocation.command with
      | .init output force => initMain output force
      | .showConfig => showMain c
      | .run args => runMain c args
