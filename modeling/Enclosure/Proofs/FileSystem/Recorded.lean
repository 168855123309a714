import Enclosure.FileSystem.Recorded
import Enclosure.Proofs.ControlGroup.Effect

/-!
This module contains the theory of recorded file systems: what an action writes down, and that it
comes to the same as without a record.
-/

namespace Enclosure

namespace Recorded

variable {σ : Type}

def Records (P : List FileCall → α → Prop) (a : StateM (Recorded σ) α) (b : StateM σ α) : Prop :=
  ∀ r, ∃ calls,
    a r = ((b r.state).1, { state := (b r.state).2, calls := r.calls ++ calls })
      ∧ P calls (b r.state).1

namespace Records

variable {P : List FileCall → α → Prop} {Q : List FileCall → β → Prop}

theorem pure {x : α} (h : P [] x) : Records P (pure x : StateM (Recorded σ) α) (pure x) := by
  intro _
  refine ⟨[], ?_, h⟩
  rw [List.append_nil]
  rfl

theorem record (a : StateM σ α) (call : α → FileCall)
    : Records (fun calls x => calls = [call x]) (record a call) a :=
  fun _ => ⟨_, rfl, rfl⟩

theorem bind {a : StateM (Recorded σ) α} {b : StateM σ α} {f : α → StateM (Recorded σ) β}
    {g : α → StateM σ β} (h : Records P a b)
    (h' : ∀ x, Records (fun calls y => ∀ before, P before x → Q (before ++ calls) y) (f x) (g x))
    : Records Q (a >>= f) (b >>= g) := by
  intro r
  obtain ⟨before, ha, hbefore⟩ := h r
  obtain ⟨calls, hf, hcalls⟩ := h' (b r.state).1 (a r).2
  rw [ha] at hf hcalls
  refine ⟨before ++ calls, ?_, hcalls before hbefore⟩
  rw [StateM.bind_apply, StateM.bind_apply, ha, hf, List.append_assoc]

theorem run_lift_bind {a : StateM (Recorded σ) α} {b : StateM σ α} {f : α → GroupM (Recorded σ) β}
    {g : α → GroupM σ β} {Q : List FileCall → Except GroupFault β → Prop} (h : Records P a b)
    (h' : ∀ x, Records (fun calls y => ∀ before, P before x → Q (before ++ calls) y) (f x).run
      (g x).run)
    : Records Q ((liftM a : GroupM (Recorded σ) α) >>= f).run ((liftM b : GroupM σ α) >>= g).run :=
  Records.bind h h'

theorem run_bind {a : GroupM (Recorded σ) α} {b : GroupM σ α} {f : α → GroupM (Recorded σ) β}
    {g : α → GroupM σ β} {P : List FileCall → Except GroupFault α → Prop}
    {Q : List FileCall → Except GroupFault β → Prop} (h : Records P a.run b.run)
    (herror : ∀ calls e, P calls (.error e) → Q calls (.error e))
    (h' : ∀ x, Records (fun calls y => ∀ before, P before (.ok x) → Q (before ++ calls) y) (f x).run
      (g x).run)
    : Records Q (a >>= f).run (b >>= g).run := by
  intro r
  obtain ⟨before, ha, hbefore⟩ := h r
  rw [ExceptT.run_bind_apply, ExceptT.run_bind_apply, ha]
  rcases hb : b.run r.state with ⟨result, s⟩
  rw [hb] at hbefore
  cases result with
  | ok x =>
    obtain ⟨calls, hf, hcalls⟩ := h' x { state := s, calls := r.calls ++ before }
    refine ⟨before ++ calls, ?_, hcalls before hbefore⟩
    rw [← List.append_assoc]
    exact hf
  | error e => exact ⟨before, rfl, herror before e hbefore⟩

theorem weaken {P' : List FileCall → α → Prop} {a : StateM (Recorded σ) α} {b : StateM σ α}
    (h : Records P a b) (himp : ∀ calls x, P calls x → P' calls x)
    : Records P' a b := by
  intro r
  obtain ⟨calls, ha, hcalls⟩ := h r
  exact ⟨calls, ha, himp _ _ hcalls⟩

theorem elim {motive : List FileCall → α → Prop} {a : StateM (Recorded σ) α} {b : StateM σ α}
    {r : Recorded σ} (h : Records (fun calls => motive (r.calls ++ calls)) a b)
    : motive (a r).2.calls (b r.state).1 := by
  obtain ⟨calls, ha, hcalls⟩ := h r
  rw [ha]
  exact hcalls

end Records

end Recorded

end Enclosure
