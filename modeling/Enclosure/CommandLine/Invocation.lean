import Enclosure.CommandLine.Options

/-!
This module contains the commands that a command line can give. Some options are good for every
command and may stand in front of it or behind it.
-/

namespace Enclosure.CommandLine

structure RunArguments where
  timeLimit : Option Binary64 := none
  cpuTimeLimit : Option Binary64 := none
  memoryLimit : Option UInt64 := none
  processLimit : Option UInt32 := none
  root : Option String := none
  bindings : List Binding := []
  env : List String := []
  filter : Option String := none
  argv : List String
  deriving DecidableEq, Repr

inductive Command where
  | init (output : String) (force : Bool)
  | run (arguments : RunArguments)
  | showConfig
  deriving DecidableEq, Repr

structure Invocation where
  config : Option String
  isVerbose : Bool
  command : Command
  deriving DecidableEq, Repr

def helpRule : OptionRule := ⟨"help", some 'h', .help⟩

def commonRules : List OptionRule :=
  [⟨"config", some 'c', .value .path⟩, ⟨"verbose", some 'v', .flag⟩, helpRule]

def commandNames : List String :=
  ["init", "run", "show-config", "help"]

def topGrammar : Grammar :=
  ⟨commonRules ++ [⟨"version", some 'V', .version⟩], .commands commandNames⟩

def initGrammar : Grammar :=
  ⟨commonRules ++ [⟨"output", some 'o', .value .path⟩, ⟨"force", some 'f', .flag⟩], .refused⟩

def runGrammar : Grammar :=
  ⟨commonRules ++ [
    ⟨"time-limit", some 't', .value .real⟩,
    ⟨"cpu-time-limit", none, .value .real⟩,
    ⟨"memory-limit", some 'm', .value .word64⟩,
    ⟨"pids", none, .value .word32⟩,
    ⟨"root", none, .value .path⟩,
    ⟨"bind", none, .values .binding⟩,
    ⟨"env", some 'e', .values .text⟩,
    ⟨"seccomp", none, .value .path⟩], .program⟩

def showGrammar : Grammar :=
  ⟨commonRules, .refused⟩

def Value.text? : Value → Option String
  | text s => some s
  | _ => none

def Value.real? : Value → Option Binary64
  | real x => some x
  | _ => none

def Value.word64? : Value → Option UInt64
  | word64 n => some n
  | _ => none

def Value.word32? : Value → Option UInt32
  | word32 n => some n
  | _ => none

def Value.binding? : Value → Option Binding
  | binding b => some b
  | _ => none

def Matches.get? (m : Matches) (f : Value → Option α) (name : String) : Option α :=
  ((m.all name).filterMap f).head?

def defaultOutput : String := "confine.toml"

def Command.ofInit (m : Matches) : Command :=
  .init ((m.get? Value.text? "output").getD defaultOutput) (m.has "force")

def Command.ofRun (m : Matches) : Except UsageFault Command :=
  if m.program.isEmpty then .error .missingProgram
  else .ok (.run {
    timeLimit := m.get? Value.real? "time-limit"
    cpuTimeLimit := m.get? Value.real? "cpu-time-limit"
    memoryLimit := m.get? Value.word64? "memory-limit"
    processLimit := m.get? Value.word32? "pids"
    root := m.get? Value.text? "root"
    bindings := (m.all "bind").filterMap Value.binding?
    env := (m.all "env").filterMap Value.text?
    filter := m.get? Value.text? "seccomp"
    argv := m.program })

def Grammar.readAll (g : Grammar) (args : List String) : Except UsageFault Matches := do
  let (m, _) ← g.read {} args
  m.flush

def Command.read (name : String) (args : List String)
    : Except UsageFault (Command × Matches) := do
  if name = "init" then
    let m ← initGrammar.readAll args
    return (.ofInit m, m)
  else if name = "run" then
    let m ← runGrammar.readAll args
    return (← Command.ofRun m, m)
  else
    let m ← showGrammar.readAll args
    return (.showConfig, m)

def helpOn (args : List String) : UsageFault :=
  match args with
  | [] => .showHelp
  | [name] => if commandNames.contains name then .showHelp else .unknownCommand
  | _ => .unknownCommand

/-- Reads a command line, whose first argument is the name of the program itself. An option given
behind the command counts more than one in front of it. -/
def Invocation.read (args : List String) : Except UsageFault Invocation := do
  match ← topGrammar.read {} (args.drop 1) with
  | (top, none) =>
    let top ← top.flush
    throw (if top.isNothing then .nothing else .missingCommand)
  | (top, some (name, rest)) =>
    if name = "help" then throw (helpOn rest)
    let (command, m) ← Command.read name rest
    let top ← top.flush
    return {
      config := (m.get? Value.text? "config").or (top.get? Value.text? "config")
      isVerbose := m.has "verbose" || top.has "verbose"
      command }

end Enclosure.CommandLine
