import Enclosure.Outcome.Program

/-!
This module contains calls of any number of processes on one page at the same time. Their accesses
may come in any order, and a process may die between two of them.
-/

namespace Enclosure.Outcome

open Page (Call Answer Program)

inductive Stage where
  | running (rest : Program)
  | died (rest : Program)
  | returned (answer : Answer)

structure Activity where
  call : Call
  stage : Stage

/-- A page with the calls that have been begun on it, in the order of their beginnings. Which
process makes a call plays no part: one that has died begins no others. -/
structure Race where
  page : Page := {}
  activities : List Activity := []

namespace Race

inductive Event where
  | begins (c : Call)
  -- The call with this number makes its next access, or returns when none is left.
  | goesOn (i : Nat)
  | dies (i : Nat)
  deriving DecidableEq, Repr

-- An event that cannot happen changes nothing.
def step (r : Race) : Event → Race
  | .begins c => { r with activities := r.activities ++ [⟨c, .running c.program⟩] }
  | .goesOn i =>
    match r.activities[i]? with
    | some ⟨c, .running (.done a)⟩ =>
      { r with activities := r.activities.set i ⟨c, .returned a⟩ }
    | some ⟨c, .running rest⟩ =>
      let (rest, page) := rest.step r.page
      { page, activities := r.activities.set i ⟨c, .running rest⟩ }
    | _ => r
  | .dies i =>
    match r.activities[i]? with
    | some ⟨c, .running rest⟩ => { r with activities := r.activities.set i ⟨c, .died rest⟩ }
    | _ => r

def run (r : Race) (es : List Event) : Race :=
  es.foldl step r

end Race

end Enclosure.Outcome
