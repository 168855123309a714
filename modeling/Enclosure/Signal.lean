/-!
This module contains the standard signals, numbered 1 to 31, and how a process reports a change of
its state.
-/

namespace Enclosure

-- A standard signal; `index` is one less than its number.
structure Signal where
  index : Fin 31
  deriving DecidableEq, Repr

namespace Signal

def names : List String :=
  ["HUP", "INT", "QUIT", "ILL", "TRAP", "ABRT", "BUS", "FPE", "KILL", "USR1", "SEGV", "USR2",
   "PIPE", "ALRM", "TERM", "STKFLT", "CHLD", "CONT", "STOP", "TSTP", "TTIN", "TTOU", "URG",
   "XCPU", "XFSZ", "VTALRM", "PROF", "WINCH", "IO", "PWR", "SYS"]

def shortName (s : Signal) : String :=
  names.getD s.index.val ""

def name (s : Signal) : String :=
  "SIG" ++ s.shortName

def number (s : Signal) : Int32 :=
  Int32.ofNat (s.index.val + 1)

-- The signal of a number; zero, real-time and negative numbers have none.
def ofNumber? (n : Int32) : Option Signal :=
  if h : 0 < n.toInt ∧ n.toInt ≤ 31 then some ⟨⟨(n.toInt - 1).toNat, by omega⟩⟩ else none

def kill : Signal := ⟨8⟩

end Signal

inductive StateChange where
  | exited
  | killed
  | dumped
  | trapped
  | stopped
  | continued
  deriving DecidableEq, Repr

namespace StateChange

def code : StateChange → Int32
  | exited => 1
  | killed => 2
  | dumped => 3
  | trapped => 4
  | stopped => 5
  | continued => 6

def ofCode? (n : Int32) : Option StateChange :=
  if n = 1 then some exited
  else if n = 2 then some killed
  else if n = 3 then some dumped
  else if n = 4 then some trapped
  else if n = 5 then some stopped
  else if n = 6 then some continued
  else none

@[simp]
theorem ofCode?_code (c : StateChange) : ofCode? c.code = some c := by
  cases c <;> rfl

end StateChange

/-- A reported change of state: the exit code if the process exited, else the number of the
signal behind the change. -/
structure ProcessStatus where
  change : StateChange
  value : Int32
  deriving DecidableEq, Repr

namespace ProcessStatus

def exited (code : Int32) : ProcessStatus :=
  ⟨.exited, code⟩

def killed (signal : Signal) : ProcessStatus :=
  ⟨.killed, signal.number⟩

def isSuccess (s : ProcessStatus) : Bool :=
  s.change = .exited && s.value = 0

def signal? (s : ProcessStatus) : Option Signal :=
  match s.change with
  | .exited => none
  | _ => Signal.ofNumber? s.value

def describe (s : ProcessStatus) : String :=
  match s.change with
  | .exited => s!"exited with {s.value}"
  | .killed => "killed by signal" ++ bySignal
  | .dumped => "killed and dumped by signal" ++ bySignal
  | .trapped => "trapped by signal" ++ bySignal
  | .stopped => "stopped by signal" ++ bySignal
  | .continued => "continued by signal" ++ bySignal
where
  bySignal : String :=
    match Signal.ofNumber? s.value with
    | some sig => s!" {sig.shortName}"
    | none => s!" with number {s.value}"

end ProcessStatus

end Enclosure
