import Enclosure.ControlGroup.Basic
import Enclosure.Text.Number
import Enclosure.Verdict

/-!
This module contains the contents of the files that the kernel writes about control groups.
-/

namespace Enclosure.ControlGroup

-- The own control group, relative to the hierarchy: what follows `0::` on the first line that
-- starts so.
def ownEntry? (content : String) : Option (List Char) :=
  (Text.lines content.toList).findSome? (afterStart? "0::".toList)

/-- The directory of the own control group, from the content of `/proc/self/cgroup`. -/
def parseOwn (content : String) : Except GroupFault String :=
  match ownEntry? content with
  | none => .error (.ownGroup "no cgroup v2 entry in /proc/self/cgroup")
  | some entry =>
    if (beforeEnd? " (deleted)".toList entry).isSome then
      .error (.ownGroup ("own cgroup was removed: " ++ String.ofList entry))
    else .ok (hierarchy ++ "/" ++ String.ofList (entry.dropWhile (· = '/')))

def missingControllers (list : String) : List String :=
  controllers.filter fun name => !(Text.words list.toList).contains name.toList

structure Counters where
  user : Option UInt64 := none
  system : Option UInt64 := none
  deriving DecidableEq, Repr

-- What another line adds: nothing if it is short or some other counter's, and otherwise a value,
-- in place of an earlier one. That value has to be a number.
def Counters.readLine (counters : Counters) (line : List Char) : Option Counters :=
  match Text.words line with
  | key :: value :: _ =>
    if key = "user_usec".toList then
      (Text.unsigned? 64 value).map fun n => { counters with user := some (.ofNat n) }
    else if key = "system_usec".toList then
      (Text.unsigned? 64 value).map fun n => { counters with system := some (.ofNat n) }
    else some counters
  | _ => some counters

/-- The processor time in the content of `cpu.stat`. -/
def parseCpuStat (content : String) : Except GroupFault CpuTime :=
  match (Text.lines content.toList).foldlM Counters.readLine {} with
  | some ⟨some user, some system⟩ => .ok ⟨.ofMicros user, .ofMicros system⟩
  | _ => .error (.malformed "cpu.stat" content)

def parseNumber (file content : String) : Except GroupFault UInt64 :=
  match Text.unsigned? 64 (Text.trim content.toList) with
  | some n => .ok (.ofNat n)
  | none => .error (.malformed file content)

end Enclosure.ControlGroup
