import Enclosure.Configuration.Basic
import Enclosure.FileSystem
import Enclosure.Json.Document
import Enclosure.Text.Split
import Enclosure.Toml.Document

/-!
This module contains the reading of configurations from text and from files.
-/

namespace Enclosure.Configuration

open FileSystem

def ofToml (content : String) : Except ConfigurationFault Configuration :=
  match Toml.assignments? content with
  | some a => ofAssignments .text a
  | none => .error .noDocument

def formats : List (String × (String → Option Assignments)) :=
  [("toml", Toml.assignments?), ("json", Json.assignments?)]

variable {σ : Type} [FileSystem σ]

def findFile (path : String)
    : StateM σ (Except ConfigurationFault (String × (String → Option Assignments))) := do
  let file := Path.join "/" path
  if ← isFile file then
    match (Path.extension? file).bind (List.lookup · formats) with
    | some format => return .ok (file, format)
    | none => return .error (.unknownFormat file)
  for (name, format) in formats do
    if let some file := Path.addToName? file s!".{name}" then
      if ← isFile file then return .ok (file, format)
  return .error (.noFile path)

/-- Reads the configuration in a file. Relative paths start at the top. -/
def load (path : String) : StateM σ (Except ConfigurationFault Configuration) := do
  if !(← (pathExists path : StateM σ _)) then return .error (.unreadable path .notFound)
  match ← (findFile path : StateM σ _) with
  | .error e => return .error e
  | .ok (file, format) =>
    match ← (read file : StateM σ _) with
    | .error e => return .error (.unreadable file e)
    | .ok content =>
      let cs := (afterStart? ['\ufeff'] content.toList).getD content.toList
      match format (String.ofList cs) with
      | none => return .error .noDocument
      | some a => return ofAssignments (.file ("/".intercalate (Path.names file))) a

end Enclosure.Configuration
