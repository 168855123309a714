import Enclosure.ControlGroup.Basic
import Enclosure.Duration
import Enclosure.Settings.Basic

/-!
This module contains the configuration that a client and its supervisor share.
-/

namespace Enclosure

structure Configuration where
  -- The program of the supervisor; it is looked for if none is given.
  supervisorPath : Option String := none
  -- The directory that supervisors build their trees below, by default the own control group.
  groupRoot : Option String := none
  -- Requests that one supervisor runs at once.
  maxParallel : UInt64 := 4
  -- Milliseconds that a supervisor has to end by itself.
  shutdownMillis : UInt64 := 1000
  deriving DecidableEq, Repr

inductive SettingsOrigin where
  | text
  | environment
  | file (path : String)
  deriving DecidableEq, Repr

def SettingsOrigin.describe : SettingsOrigin → String
  | text => ""
  | environment => " in the environment"
  | file path => s!" in {path}"

inductive ConfigurationFault where
  | unreadable (path : String) (cause : IoFault)
  | noDocument
  | unknownFormat (path : String)
  | noFile (path : String)
  | unwanted (found : Setting) (wanted : Setting.Wanted) (key : String) (origin : SettingsOrigin)
  | tooManyElements
  | noParallel
  | noShutdownTime
  | relativeRoot (root : String)
  | group (fault : GroupFault)
  deriving DecidableEq, Repr

namespace ConfigurationFault

def settingsReason? : ConfigurationFault → Option String
  | noDocument => some "the text is not a valid document"
  | unknownFormat path =>
    some s!"configuration file \"{path}\" is not of a supported file format"
  | noFile path => some s!"configuration file \"{path}\" not found"
  | unwanted found wanted key origin =>
    some (s!"invalid type: {found.describe}, expected {wanted.describe} for key `{key}`"
      ++ if found.isGathered then "" else origin.describe)
  | _ => none

def checkReason? : ConfigurationFault → Option String
  | noParallel => some "max_parallel_sandboxes must be at least 1"
  | noShutdownTime => some "shutdown_timeout_ms must be at least 1"
  | relativeRoot root => some s!"cgroup_root must be an absolute path, got {root}"
  | _ => none

def message (f : ConfigurationFault) : String :=
  match f with
  | unreadable path cause => s!"failed to read config file at {path}: {cause.message}"
  | group fault => fault.message
  | tooManyElements => "capacity overflow"
  | _ => match f.settingsReason?, f.checkReason? with
    | some reason, _ => "failed to parse config: " ++ reason
    | none, reason => "invalid config: " ++ reason.getD ""

def causes (f : ConfigurationFault) : List String :=
  match f with
  | unreadable _ cause => [f.message, cause.message]
  | group fault => fault.causes
  | _ => f.message :: f.settingsReason?.toList

end ConfigurationFault

namespace Configuration

def shutdownTimeout (c : Configuration) : Duration :=
  .ofMillis c.shutdownMillis

/-- The checks that every configuration in use has passed. -/
def validate (c : Configuration) : Except ConfigurationFault Unit := do
  if c.maxParallel = 0 then throw .noParallel
  if c.shutdownMillis = 0 then throw .noShutdownTime
  if let some root := c.groupRoot then
    if !Path.isAbsolute root then throw (.relativeRoot root)

def optionalText (origin : SettingsOrigin) (s : Settings) (key : String)
    : Except ConfigurationFault (Option String) :=
  match s.get? key with
  | none | some .absent => .ok none
  | some v => (v.toText.mapError fun w => .unwanted v w key origin).map some

def word (origin : SettingsOrigin) (s : Settings) (key : String) (default : UInt64)
    : Except ConfigurationFault UInt64 :=
  match s.get? key with
  | none => .ok default
  | some v => v.toWord.mapError fun w => .unwanted v w key origin

def ofSettings (origin : SettingsOrigin) (s : Settings)
    : Except ConfigurationFault Configuration := do
  let default : Configuration := {}
  let c : Configuration := {
    supervisorPath := ← optionalText origin s "supervisor_path"
    groupRoot := ← optionalText origin s "cgroup_root"
    maxParallel := ← word origin s "max_parallel_sandboxes" default.maxParallel
    shutdownMillis := ← word origin s "shutdown_timeout_ms" default.shutdownMillis }
  c.validate
  return c

def ofAssignments (origin : SettingsOrigin) (a : Assignments)
    : Except ConfigurationFault Configuration :=
  match Settings.ofAssignments? a with
  | some s => ofSettings origin s
  | none => .error .tooManyElements

end Configuration

end Enclosure
