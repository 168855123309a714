import Enclosure.Request.Basic
import Enclosure.Path

/-!
This module contains the check that a request has to pass before anything is built for it.
-/

namespace Enclosure

inductive RequestFault where
  | emptyArgv
  | nulByte (what : String)
  | relativePath (path : String)
  | parentComponent (path : String)
  | cpuBandwidth
  deriving DecidableEq, Repr

def RequestFault.message : RequestFault → String
  | emptyArgv => "argv cannot be empty"
  | nulByte what => s!"{what} contains a NUL byte"
  | relativePath path => s!"mount path must be absolute: {path}"
  | parentComponent path => s!"mount path may not contain '..' components: {path}"
  | cpuBandwidth => "cpu.max period must be in [1000, 1000000] usec and max at least 1000 usec"

def validatePath (path : String) : Except RequestFault Unit :=
  if Path.hasNul path then .error (.nulByte "mount path")
  else if !Path.isAbsolute path then .error (.relativePath path)
  else if Path.climbs path then .error (.parentComponent path)
  else .ok ()

namespace Request

def paths (r : Request F) : List String :=
  r.mounts.flatMap MountOp.paths ++ r.newRoot.toList

def validate (r : Request F) : Except RequestFault Unit := do
  if r.argv.isEmpty then throw .emptyArgv
  if r.argv.any Path.hasNul then throw (.nulByte "argv")
  if r.env.any Path.hasNul then throw (.nulByte "env")
  if !r.groupLimits.bandwidth.all CpuBandwidth.isValid then throw .cpuBandwidth
  r.paths.forM validatePath

end Request

end Enclosure
