import Enclosure.Binary64.Decimal
import Enclosure.CommandLine.Binding
import Enclosure.Text.Number

/-!
This module contains the reading of options: `--name value`, `--name=value`, `-n value`, `-nvalue`
and `-n=value`, flags that may be joined as in `-vf`, and `--` before everything that is no option.
-/

namespace Enclosure.CommandLine

inductive UsageFault where
  | showHelp
  | showVersion
  | nothing
  | missingCommand
  | unknownCommand
  | unknownArgument
  | missingValue
  | malformedValue
  | unwantedValue
  | repeated
  | missingProgram
  deriving DecidableEq, Repr

inductive ValueKind where
  | path
  | text
  | real
  | word64
  | word32
  | binding
  deriving DecidableEq, Repr

inductive Value where
  | text (s : String)
  | real (x : Binary64)
  | word64 (n : UInt64)
  | word32 (n : UInt32)
  | binding (b : Binding)
  deriving DecidableEq, Repr

def ValueKind.read (kind : ValueKind) (s : String) : Except UsageFault Value :=
  match kind with
  | path => if s.isEmpty then .error .missingValue else .ok (.text s)
  | text => .ok (.text s)
  | real => (Binary64.parse? s.toList).elim (.error .malformedValue) fun x => .ok (.real x)
  | word64 =>
    (Text.unsigned? 64 s.toList).elim (.error .malformedValue) fun n => .ok (.word64 (.ofNat n))
  | word32 => match Text.signed? 64 s.toList with
    | some n =>
      if 0 ≤ n ∧ n < 0x100000000 then .ok (.word32 (.ofNat n.toNat)) else .error .malformedValue
    | none => .error .malformedValue
  | binding => match Binding.parse s with
    | .ok b => .ok (.binding b)
    | .error _ => .error .malformedValue

inductive Effect where
  | help
  | version
  | flag
  | value (kind : ValueKind)
  | values (kind : ValueKind)
  deriving DecidableEq, Repr

structure OptionRule where
  name : String
  letter : Option Char := none
  effect : Effect
  deriving DecidableEq, Repr

inductive PlainRule where
  | commands (names : List String)
  | refused
  -- Part of a program, but only behind `--`.
  | program
  deriving DecidableEq, Repr

structure Grammar where
  options : List OptionRule
  plain : PlainRule
  deriving DecidableEq, Repr

structure Matches where
  flags : List String := []
  values : List (String × Value) := []
  program : List String := []
  -- The last option and its value, which is not looked at before the next option or the end.
  pending : Option (OptionRule × Option String) := none
  isBehind : Bool := false
  deriving DecidableEq, Repr

namespace Matches

def has (m : Matches) (name : String) : Bool :=
  m.flags.contains name || m.values.any (·.1 = name)

def isNothing (m : Matches) : Bool :=
  m.flags.isEmpty && m.values.isEmpty

def all (m : Matches) (name : String) : List Value :=
  (m.values.filter (·.1 = name)).map (·.2)

def addValue (m : Matches) (rule : OptionRule) (value : String) : Except UsageFault Matches := do
  let kind ← match rule.effect with
    | .value kind => if m.has rule.name then throw .repeated else pure kind
    | .values kind => pure kind
    | _ => throw .unwantedValue
  return { m with values := m.values ++ [(rule.name, ← kind.read value)] }

def flush (m : Matches) : Except UsageFault Matches :=
  match m.pending with
  | none => .ok m
  | some (_, none) => .error .missingValue
  | some (rule, some value) => { m with pending := none }.addValue rule value

def addOption (m : Matches) (rule : OptionRule) (attached : Option String)
    : Except UsageFault Matches :=
  match rule.effect, attached with
  | .value _, none | .values _, none => do return { (← m.flush) with pending := some (rule, none) }
  | .value _, some v | .values _, some v => do (← m.flush).addValue rule v
  | _, some _ => .error .unwantedValue
  | .help, none => do
    let _ ← m.flush
    throw .showHelp
  | .version, none => do
    let _ ← m.flush
    throw .showVersion
  | .flag, none => do
    let m ← m.flush
    if m.has rule.name then throw .repeated
    return { m with flags := m.flags ++ [rule.name] }

def isAwaitingValue (m : Matches) : Bool :=
  match m.pending with
  | some (_, none) => true
  | _ => false

end Matches

namespace Grammar

-- `name` or `name=value`.
def readLong (g : Grammar) (m : Matches) (s : List Char) : Except UsageFault Matches :=
  let name := String.ofList (s.takeWhile (· ≠ '='))
  let attached := match s.dropWhile (· ≠ '=') with
    | [] => none
    | _ :: value => some (String.ofList value)
  match g.options.find? (·.name = name) with
  | some rule => m.addOption rule attached
  | none => .error .unknownArgument

-- Letters of flags, up to one that takes a value: the rest is its value, behind a `=` or not.
def readShort (g : Grammar) (m : Matches) : List Char → Except UsageFault Matches
  | [] => .ok m
  | c :: rest =>
    match g.options.find? (·.letter = some c) with
    | none => .error .unknownArgument
    | some rule =>
      match rule.effect with
      | .value _ | .values _ =>
        m.addOption rule (match rest with
          | [] => none
          | '=' :: value => some (String.ofList value)
          | value => some (String.ofList value))
      | _ => do g.readShort (← m.addOption rule none) rest

def readPlain (g : Grammar) (m : Matches) (arg : String) : Except UsageFault Matches :=
  match g.plain with
  | .program =>
    if m.isBehind then do
      let m ← m.flush
      return { m with program := m.program ++ [arg] }
    else .error .unknownArgument
  | .refused => .error .unknownArgument
  | .commands names =>
    if m.isBehind && names.contains arg then .error .unknownArgument else .error .unknownCommand

/-- Reads arguments up to the end, or up to a command, which is returned with what follows it. -/
def read (g : Grammar) : Matches → List String
    → Except UsageFault (Matches × Option (String × List String))
  | m, [] => .ok (m, none)
  | m, arg :: rest => do
    if m.isBehind then g.read (← g.readPlain m arg) rest
    else
      if let .commands names := g.plain then
        if !m.isAwaitingValue && names.contains arg then return (m, some (arg, rest))
      match arg.toList with
      | ['-', '-'] => g.read { m with isBehind := true } rest
      | '-' :: '-' :: s => g.read (← g.readLong m s) rest
      | '-' :: c :: s => g.read (← g.readShort m (c :: s)) rest
      | _ =>
        match m.pending with
        | some (rule, none) => g.read { m with pending := some (rule, some arg) } rest
        | _ => g.read (← g.readPlain m arg) rest

end Grammar

end Enclosure.CommandLine
