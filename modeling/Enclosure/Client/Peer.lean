import Enclosure.Duration
import Enclosure.Frame.Transfer

/-!
This module contains what a client does to the process of its supervisor and to the socket between
them, over any kind of state that can answer.
-/

namespace Enclosure

/-- A state `σ` with one supervisor, which takes requests with descriptors in `F`. -/
class Peer (σ : Type) (F : outParam Type) where
  -- Starts the program with an environment of its own, and returns its process number.
  launch : String → List (String × String) → StateM σ (Except IoFault UInt32)
  -- Sends a whole frame, the descriptors with its first byte.
  send : List UInt8 → List F → StateM σ (Except IoFault Unit)
  receive : StateM σ (Except ReadFault Verdict)
  close : StateM σ Unit
  kill : StateM σ (Except IoFault Unit)
  endsWithin : Duration → StateM σ (Except IoFault Bool)
  wait : StateM σ (Except IoFault ProcessStatus)
  errorOutput : StateM σ (Except IoFault (List UInt8))

end Enclosure
