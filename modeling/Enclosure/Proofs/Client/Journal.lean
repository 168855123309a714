import Enclosure.Proofs.Client.Ending

/-!
This module contains the theory of journals. What is written down has no influence on what happens,
so a connection comes to the same with a journal as without one.
-/

namespace Enclosure

namespace Journal

variable {σ F : Type}

theorem note_eq {a : StateM σ α} {x : α} {s : σ} {j : Journal σ F} (h : a j.state = (x, s))
    (operation : α → Operation F)
    : note a operation j = (x, ⟨s, j.operations ++ [operation x]⟩) := by
  unfold note
  rw [h]

theorem eq_of_note {a : StateM σ α} {x : α} {operation : α → Operation F} {j j' : Journal σ F}
    (h : note a operation j = (x, j'))
    : j'.state = (a j.state).2 ∧ j'.operations = j.operations ++ [operation x] := by
  cases h
  exact ⟨rfl, rfl⟩

def Mirrors (a : StateM (Journal σ F) α) (b : StateM σ α) : Prop :=
  ∀ j, b j.state = ((a j).1, (a j).2.state)

namespace Mirrors

theorem pure (x : α) : Mirrors (pure x : StateM (Journal σ F) α) (pure x) :=
  fun _ => rfl

theorem note (a : StateM σ α) (operation : α → Operation F) : Mirrors (note a operation) a :=
  fun _ => rfl

theorem bind {a : StateM (Journal σ F) α} {b : StateM σ α} {f : α → StateM (Journal σ F) β}
    {g : α → StateM σ β} (h : Mirrors a b) (h' : ∀ x, Mirrors (f x) (g x))
    : Mirrors (a >>= f) (b >>= g) := by
  intro j
  change g (b j.state).1 (b j.state).2 = _
  rw [h j]
  exact h' _ _

theorem run_bind {a : StateM (Journal σ F) α} {b : StateM σ α} {f : α → GroupM (Journal σ F) β}
    {g : α → GroupM σ β} (h : Mirrors a b) (h' : ∀ x, Mirrors (f x).run (g x).run)
    : Mirrors ((liftM a : GroupM (Journal σ F) α) >>= f).run ((liftM b : GroupM σ α) >>= g).run :=
  Mirrors.bind h h'

end Mirrors

def Follows (a : ClientM (Journal σ F) α) (b : ClientM σ α) : Prop :=
  ∀ c, Mirrors (a c) (b c)

namespace Follows

theorem pure (x : α) : Follows (pure x : ClientM (Journal σ F) α) (pure x) :=
  fun c => Mirrors.pure (x, c)

theorem get : Follows (get : ClientM (Journal σ F) Connection) get :=
  fun c => Mirrors.pure (c, c)

theorem set (c : Connection) : Follows (set c : ClientM (Journal σ F) PUnit) (set c) :=
  fun _ _ => rfl

theorem modify (f : Connection → Connection)
    : Follows (modify f : ClientM (Journal σ F) PUnit) (modify f) :=
  fun _ _ => rfl

theorem lift {a : StateM (Journal σ F) α} {b : StateM σ α} (h : Mirrors a b)
    : Follows (liftM a : ClientM (Journal σ F) α) (liftM b) :=
  fun c => h.bind fun x => Mirrors.pure (x, c)

theorem bind {a : ClientM (Journal σ F) α} {b : ClientM σ α} {f : α → ClientM (Journal σ F) β}
    {g : α → ClientM σ β} (h : Follows a b) (h' : ∀ x, Follows (f x) (g x))
    : Follows (a >>= f) (b >>= g) :=
  fun c => (h c).bind fun x => h' x.1 x.2

end Follows

variable [FileSystem σ]

theorem mirrors_removeEach (base : String) (entries : List (Except IoFault (String × Bool)))
    : Mirrors (ControlGroup.removeEach base entries : StateM (Journal σ F) _)
        (ControlGroup.removeEach base entries) := by
  induction entries with
  | nil => exact .pure _
  | cons entry entries ih =>
    cases entry with
    | error e => exact .bind ih fun _ => .pure _
    | ok entry =>
      obtain ⟨name, isDirectory⟩ := entry
      unfold ControlGroup.removeEach
      split
      . exact ih
      . refine .bind (.note _ _) fun result => .bind ih fun later => ?_
        cases result with
        | ok => exact .pure _
        | error => exact .pure _

theorem mirrors_removeTree (root : String) (pid : UInt32)
    : Mirrors (ControlGroup.removeTree root pid : GroupM (Journal σ F) Unit).run
        (ControlGroup.removeTree root pid : GroupM σ Unit).run := by
  unfold ControlGroup.removeTree
  refine .run_bind (.note _ _) fun result => ?_
  cases result with
  | error e =>
    dsimp only
    split
    . exact .pure _
    . exact .pure _
  | ok entries =>
    refine .run_bind (mirrors_removeEach _ entries) fun fault => ?_
    cases fault with
    | some fault => exact .pure _
    | none =>
      refine .run_bind (.note _ _) fun result => ?_
      cases result with
      | ok => exact .pure _
      | error => exact .pure _

variable [Peer σ F]

open Connection

theorem respectsEnding_follows : RespectsEnding (Journal σ F) σ F fun ⦃_⦄ => Follows where
  pure := .pure
  get := .get
  bind := .bind
  setClosed := .modify _
  setFinished := .modify _
  close := .lift (.note _ _)
  kill := .lift (.note _ _)
  endsWithin _ := .lift (.note _ _)
  wait := .lift (.note _ _)
  errorOutput := .lift (.note _ _)
  removeTree _ _ := .lift (mirrors_removeTree _ _)

theorem follows_send (r : Request F) : Follows (send r : ClientM (Journal σ F) _) (send r) := by
  refine .bind .get fun c => ?_
  split
  . exact .pure _
  . cases r.validate with
    | error => exact .pure _
    | ok =>
      cases r.encode with
      | error => exact .pure _
      | ok encoded =>
        dsimp only
        split
        . exact .pure _
        . refine .bind (.lift (.note _ _)) fun result => ?_
          cases result with
          | error => exact .bind respectsEnding_follows.died fun _ => .pure _
          | ok => exact .bind (.set _) fun _ => .pure _

theorem follows_await (h : Handle) : Follows (await h : ClientM (Journal σ F) _) (await h) := by
  refine .bind .get fun c => ?_
  cases c.handleFault? h with
  | some => exact .pure _
  | none =>
    refine .bind (.set _) fun _ => ?_
    split
    . exact .pure _
    . refine .bind (.lift (.note _ _)) fun result => ?_
      cases result with
      | error => exact .bind respectsEnding_follows.died fun _ => .pure _
      | ok => exact .pure _

theorem follows_call (call : Call F)
    : Follows (Connection.call call : ClientM (Journal σ F) _) (Connection.call call) := by
  cases call with
  | send r => exact .bind (follows_send r) fun _ => .pure _
  | await h => exact .bind (follows_await h) fun _ => .pure _

end Journal

namespace Connection

variable {σ F : Type} [FileSystem σ] [Peer σ F]

theorem call_eq_turn (c : Connection) (s : σ) (call : Call F)
    : Connection.call call c s
        =
      (((turn c s call).1.reply, (turn c s call).1.after), (turn c s call).2) :=
  Journal.follows_call call c { state := s }

theorem giveUp_eq_live (c : Connection) (s : σ) (calls : List (Call F)) (farewell : Farewell)
    : (giveUp farewell (turns c s calls).2.1 (turns c s calls).2.2).1.1
        =
      (live c s calls farewell).ending :=
  congrArg (·.1.1) (Journal.respectsEnding_follows.giveUp farewell (turns c s calls).2.1
    { state := (turns c s calls).2.2 })

end Connection

end Enclosure
