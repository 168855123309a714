import Enclosure.Outcome.Page

/-!
This module contains what the processes of an enclosure call on a page, access by access. Only
single accesses are indivisible; what a call comes to if nothing happens between its accesses is
`run`.
-/

namespace Enclosure.Outcome.Page

inductive Cell where
  | progress
  | code
  | value
  | messageLength
  | messageByte (i : Nat)
  | startNanos
  | startUser
  | startSystem
  | endNanos
  deriving DecidableEq, Repr

abbrev Cell.Content : Cell → Type
  | progress => Progress
  | code | value => Int32
  | messageLength => Nat
  | messageByte _ => UInt8
  | startNanos | startUser | startSystem | endNanos => UInt64

def load (p : Page) : (c : Cell) → c.Content
  | .progress => p.progress
  | .code => p.code
  | .value => p.value
  | .messageLength => p.messageLength
  | .messageByte i => p.message.getD i 0
  | .startNanos => p.startNanos
  | .startUser => p.startUser
  | .startSystem => p.startSystem
  | .endNanos => p.endNanos

inductive Call where
  | writeStatus (s : ProcessStatus)
  | writeMessage (message : String)
  | outcome
  | hasMessage
  | recordStart (time : Duration) (cpu : CpuTime)
  | start
  | recordEnd (time : Duration)
  | endTime
  deriving DecidableEq, Repr

inductive Answer where
  | written (wasFree : Bool)
  | outcome (o : Outcome)
  | hasMessage (b : Bool)
  | recorded
  | start (s : Option (Duration × CpuTime))
  | endTime (t : Option Duration)
  deriving DecidableEq, Repr

/-- The accesses that are left of a call. -/
inductive Program where
  | done (answer : Answer)
  | claim (next : Bool → Program)
  | store (s : Store) (next : Program)
  | load (c : Cell) (next : c.Content → Program)

namespace Program

def step (p : Page) : Program → Program × Page
  | done a => (done a, p)
  | claim next =>
    match p.claim with
    | some p => (next true, p)
    | .none => (next false, p)
  | store s next => (next, p.store s)
  | load c next => (next (p.load c), p)

def run (p : Page) : Program → Answer × Page
  | done a => (a, p)
  | claim next =>
    match p.claim with
    | some p => (next true).run p
    | .none => (next false).run p
  | store s next => next.run (p.store s)
  | load c next => (next (p.load c)).run p

def storing (stores : List Store) (answer : Answer) : Program :=
  stores.foldr store (done answer)

def publishing (stores : List Store) : Program :=
  claim fun
    | true => storing stores (.written true)
    | false => done (.written false)

def loadBytes (i : Nat) : (count : Nat) → (List UInt8 → Program) → Program
  | 0, next => next []
  | count + 1, next =>
    load (.messageByte i) fun b => loadBytes (i + 1) count fun bs => next (b :: bs)

-- What has been read is kept in a page of the reader's own.
def loadOutcome : Program :=
  load .progress fun
    | .free | .claimed => done (.outcome .none)
    | .ended =>
      load .code fun code => load .value fun value =>
        done (.outcome (outcomeAfter .ended { code, value }))
    | .failed =>
      load .messageLength fun messageLength =>
        loadBytes 0 (min messageLength messageCapacity) fun message =>
          done (.outcome (outcomeAfter .failed { messageLength, message }))

-- A time that is not there ends the reading.
def loadStart : Program :=
  load .startNanos fun nanos =>
    if nanos = 0 then done (.start .none)
    else load .startUser fun startUser =>
      if startUser = 0 then done (.start .none)
      else load .startSystem fun startSystem =>
        done (.start (startAfter nanos { startUser, startSystem }))

end Program

def Call.program : Call → Program
  | writeStatus s => .publishing (statusStores s)
  | writeMessage message => .publishing (messageStores message)
  | outcome => .loadOutcome
  | hasMessage => .load .progress fun progress => .done (.hasMessage (progress = .failed))
  | recordStart time cpu => .storing (startStores time cpu) .recorded
  | start => .loadStart
  | recordEnd time => .storing [.endNanos (stamp time.ns)] .recorded
  | endTime =>
    .load .endNanos fun v => .done (.endTime ((unstamp v).map fun v => .ofNanos v.toNat))

/-- What a call comes to on a page that nobody else uses meanwhile. -/
def Call.perform (p : Page) : Call → Answer × Page
  | writeStatus s => let (p, wasFree) := p.writeStatus s; (.written wasFree, p)
  | writeMessage message => let (p, wasFree) := p.writeMessage message; (.written wasFree, p)
  | outcome => (.outcome p.outcome, p)
  | hasMessage => (.hasMessage p.hasMessage, p)
  | recordStart time cpu => (.recorded, p.recordStart time cpu)
  | start => (.start p.start, p)
  | recordEnd time => (.recorded, p.recordEnd time)
  | endTime => (.endTime p.endTime, p)

end Enclosure.Outcome.Page
