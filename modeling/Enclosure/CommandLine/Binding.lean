import Enclosure.Mount.Basic
import Enclosure.Text.Split

/-!
This module contains bindings, the host paths that a program is shown, as they are written on a
command line: `SOURCE:DESTINATION`, followed by `:rw` or `:exec` for what is allowed beyond
reading.
-/

namespace Enclosure.CommandLine

structure Binding where
  source : String
  destination : String
  isWritable : Bool := false
  isExecutable : Bool := false
  deriving DecidableEq, Repr

inductive BindingFault where
  | noDestination (spec : String)
  | unknownRight (word : String)
  deriving DecidableEq, Repr

def BindingFault.message : BindingFault → String
  | noDestination spec => s!"expected SRC:DEST, got '{spec}'"
  | unknownRight word => s!"unknown bind option '{word}'"

namespace Binding

def allow (b : Binding) (word : String) : Except BindingFault Binding :=
  if word = "rw" then .ok { b with isWritable := true }
  else if word = "exec" then .ok { b with isExecutable := true }
  else .error (.unknownRight word)

def parse (spec : String) : Except BindingFault Binding :=
  match (split (· = ':') spec.toList).map String.ofList with
  | source :: destination :: words => words.foldlM allow { source, destination }
  | _ => .error (.noDestination spec)

def mountAt (b : Binding) (path : String) : MountOp :=
  .bind { source := b.source, dest := path, recursive := true, readOnly := !b.isWritable,
          noExec := !b.isExecutable }

end Binding

end Enclosure.CommandLine
