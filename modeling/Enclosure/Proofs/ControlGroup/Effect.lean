import Enclosure.ControlGroup.Basic

/-!
This module contains what sequences of system calls leave alone: whatever every single call leaves
alone.
-/

namespace Enclosure

def Keeps (R : σ → σ → Prop) (a : StateM σ α) : Prop :=
  ∀ s, R s (a s).2

theorem StateM.bind_apply (a : StateM σ α) (f : α → StateM σ β) (s : σ)
    : (a >>= f) s = f (a s).1 (a s).2 := rfl

theorem Keeps.bind {R : σ → σ → Prop} (trans : ∀ s t u, R s t → R t u → R s u) {a : StateM σ α}
    {f : α → StateM σ β} (h : Keeps R a) (h' : ∀ x, Keeps R (f x))
    : Keeps R (a >>= f) :=
  fun s => trans _ _ _ (h s) (h' _ _)

theorem ExceptT.run_bind_apply (a : ExceptT ε (StateM σ) α) (f : α → ExceptT ε (StateM σ) β) (s : σ)
    : (a >>= f).run s = match a.run s with
        | (.ok x, s') => (f x).run s'
        | (.error e, s') => (.error e, s') := by
  change ExceptT.bindCont f (a.run s).1 (a.run s).2 = _
  rcases a.run s with ⟨_ | _, s'⟩ <;> rfl

theorem ExceptT.run_lift_bind_apply (a : StateM σ α) (f : α → ExceptT ε (StateM σ) β) (s : σ)
    : ((liftM a : ExceptT ε (StateM σ) α) >>= f).run s = (f (a s).1).run (a s).2 := rfl

theorem Keeps.run_bind {P Q R : σ → σ → Prop} (trans : ∀ s t u, P s t → Q t u → R s u)
    {a : StateM σ α} {f : α → GroupM σ β} (h : Keeps P a) (h' : ∀ x, Keeps Q (f x).run)
    : Keeps R ((liftM a : GroupM σ α) >>= f).run :=
  fun s => trans _ _ _ (h s) (h' _ _)

def GroupM.Ensures (P : α → Prop) (a : GroupM σ α) : Prop :=
  ∀ s x s', a.run s = (.ok x, s') → P x

theorem GroupM.Ensures.pure {P : α → Prop} (h : P x) : GroupM.Ensures P (pure x : GroupM σ α) := by
  intro s y s' hrun
  cases hrun
  exact h

theorem GroupM.Ensures.bind {P : β → Prop} {a : GroupM σ α} {f : α → GroupM σ β}
    (h : ∀ x, GroupM.Ensures P (f x))
    : GroupM.Ensures P (a >>= f) := by
  intro s y s' hrun
  rw [ExceptT.run_bind_apply] at hrun
  split at hrun
  . next x s₁ _ => exact h x s₁ y s' hrun
  . cases hrun

theorem Keeps.group_bind {R : σ → σ → Prop} (trans : ∀ s t u, R s t → R t u → R s u)
    {a : GroupM σ α} {f : α → GroupM σ β} (h : Keeps R a.run) (h' : ∀ x, Keeps R (f x).run)
    : Keeps R (a >>= f).run := by
  intro s
  have hfirst := h s
  rw [ExceptT.run_bind_apply]
  split
  . next x s' hrun =>
    rw [hrun] at hfirst
    exact trans _ _ _ hfirst (h' x s')
  . next e s' hrun =>
    rw [hrun] at hfirst
    exact hfirst

namespace ControlGroup

theorem named_run (op path : String) (a : StateM σ (Except IoFault α)) (s : σ)
    : (named op path a).run s = match a s with
        | (.ok x, s') => (.ok x, s')
        | (.error e, s') => (.error (.io op path e), s') := by
  unfold named
  rw [ExceptT.run_lift_bind_apply]
  rcases a s with ⟨_ | _, s'⟩ <;> rfl

theorem named_state (op path : String) (a : StateM σ (Except IoFault α)) (s : σ)
    : ((named op path a).run s).2 = (a s).2 := by
  rw [named_run]
  rcases a s with ⟨_ | _, s'⟩ <;> rfl

theorem keeps_named {R : σ → σ → Prop} (op path : String) {a : StateM σ (Except IoFault α)}
    (h : Keeps R a)
    : Keeps R (named op path a).run := by
  intro s
  have hcall := h s
  rw [named_run]
  split
  . next x s' hrun =>
    rw [hrun] at hcall
    exact hcall
  . next e s' hrun =>
    rw [hrun] at hcall
    exact hcall

theorem keeps_writeOptional [FileSystem σ] {R : σ → σ → Prop} (refl : ∀ s, R s s)
    (trans : ∀ s t u, R s t → R t u → R s u) {path content : String}
    (h : Keeps R (FileSystem.write path content))
    : Keeps R (writeOptional path content : GroupM σ Unit).run := by
  unfold writeOptional
  refine Keeps.run_bind trans h fun result => ?_
  cases result with
  | ok => exact refl
  | error e =>
    dsimp only
    split
    . exact refl
    . exact refl

end ControlGroup

end Enclosure
