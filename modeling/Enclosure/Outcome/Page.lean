import Enclosure.Text.Bytes
import Enclosure.Verdict

/-!
This module contains the page of memory through which the processes of an enclosure report. It is
changed by single stores only, and whoever claims it first decides the outcome.
-/

namespace Enclosure

/-- What the processes of an enclosure have reported. -/
inductive Outcome where
  | none
  | ended (status : ProcessStatus)
  | failed (message : String)
  deriving DecidableEq, Repr

namespace Outcome

inductive Progress where
  | free
  | claimed
  | ended
  | failed
  deriving DecidableEq, Repr

def messageCapacity : Nat := 4032

/-- The cells of a page. A time is stored plus one, so that zero says that it is not there. -/
structure Page where
  progress : Progress := .free
  code : Int32 := 0
  value : Int32 := 0
  messageLength : Nat := 0
  startNanos : UInt64 := 0
  startUser : UInt64 := 0
  startSystem : UInt64 := 0
  endNanos : UInt64 := 0
  message : List UInt8 := List.replicate messageCapacity 0
  deriving DecidableEq, Repr

inductive Store where
  | progress (p : Progress)
  | code (v : Int32)
  | value (v : Int32)
  | messageLength (n : Nat)
  | messageByte (i : Nat) (b : UInt8)
  | startNanos (v : UInt64)
  | startUser (v : UInt64)
  | startSystem (v : UInt64)
  | endNanos (v : UInt64)
  deriving DecidableEq, Repr

namespace Page

def store (p : Page) : Store → Page
  | .progress v => { p with progress := v }
  | .code v => { p with code := v }
  | .value v => { p with value := v }
  | .messageLength n => { p with messageLength := n }
  | .messageByte i b => { p with message := p.message.set i b }
  | .startNanos v => { p with startNanos := v }
  | .startUser v => { p with startUser := v }
  | .startSystem v => { p with startSystem := v }
  | .endNanos v => { p with endNanos := v }

def storeAll (p : Page) (stores : List Store) : Page :=
  stores.foldl store p

/-- Takes the right to decide the outcome, in one step, if nobody has it. -/
def claim (p : Page) : Option Page :=
  if p.progress = .free then some { p with progress := .claimed } else .none

-- The stores that publish a status, the last of which makes it visible.
def statusStores (s : ProcessStatus) : List Store :=
  [.code s.change.code, .value s.value, .progress .ended]

-- The bytes of the part of a message that a page holds. They are cut between two characters.
def messageBytes (message : String) : List UInt8 :=
  let bytes := message.toUTF8.data.toList
  bytes.take (Text.boundaryFrom bytes (min bytes.length messageCapacity))

def messageStores (message : String) : List Store :=
  let bytes := messageBytes message
  bytes.mapIdx .messageByte ++ [.messageLength bytes.length, .progress .failed]

/-- Claims the page and publishes; tells whether the page was free. -/
def publish (p : Page) (stores : List Store) : Page × Bool :=
  match p.claim with
  | .none => (p, false)
  | some p => (p.storeAll stores, true)

def writeStatus (p : Page) (s : ProcessStatus) : Page × Bool :=
  p.publish (statusStores s)

def writeMessage (p : Page) (message : String) : Page × Bool :=
  p.publish (messageStores message)

def hasMessage (p : Page) : Bool :=
  p.progress = .failed

-- The outcome that a reader finds who saw `progress` and reads the other cells later.
def outcomeAfter (progress : Progress) (later : Page) : Outcome :=
  match progress with
  | .free | .claimed => .none
  | .ended =>
    match StateChange.ofCode? later.code with
    | some c => .ended ⟨c, later.value⟩
    | .none => .failed s!"invalid si_code {later.code} reported by pid1"
  | .failed => .failed (Text.ofBytes (later.message.take later.messageLength))

def outcome (p : Page) : Outcome :=
  outcomeAfter p.progress p

def stamp (n : Nat) : UInt64 :=
  .ofNat n + 1

def unstamp (v : UInt64) : Option UInt64 :=
  if v = 0 then .none else some (v - 1)

def startStores (time : Duration) (cpu : CpuTime) : List Store :=
  [.startUser (stamp cpu.user.micros), .startSystem (stamp cpu.system.micros),
   .startNanos (stamp time.ns)]

def recordStart (p : Page) (time : Duration) (cpu : CpuTime) : Page :=
  p.storeAll (startStores time cpu)

def startAfter (nanos : UInt64) (later : Page) : Option (Duration × CpuTime) := do
  let time ← unstamp nanos
  let user ← unstamp later.startUser
  let system ← unstamp later.startSystem
  return (.ofNanos time.toNat, ⟨.ofMicros user, .ofMicros system⟩)

def start (p : Page) : Option (Duration × CpuTime) :=
  startAfter p.startNanos p

def recordEnd (p : Page) (time : Duration) : Page :=
  p.store (.endNanos (stamp time.ns))

def endTime (p : Page) : Option Duration :=
  (unstamp p.endNanos).map fun v => .ofNanos v.toNat

end Page

end Outcome

end Enclosure
