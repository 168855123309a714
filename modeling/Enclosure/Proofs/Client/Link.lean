import Enclosure.Client.Link
import Enclosure.Proofs.Client.Connection
import Enclosure.Proofs.Supervisor.Output
import Enclosure.Proofs.Transfer

/-!
This module contains what a client does to the loop of its supervisor: each step adds some events to
the log, and the loop is always the one that the logged events lead to.
-/

namespace Enclosure.Link

open Supervisor (Loop)
open Supervisor.Loop (Event arrivals)

variable {ρ F : Type}

structure Follows (es : List (Event F)) (s s' : Link ρ F) : Prop where
  run : s.loop.run es = some s'.loop
  log : s'.log = s.log ++ es
  read : s'.read = s.read

def Continues (s s' : Link ρ F) : Prop :=
  ∃ es, s.loop.run es = some s'.loop ∧ s'.log = s.log ++ es

theorem Follows.refl (s : Link ρ F) : Follows [] s s :=
  ⟨rfl, (List.append_nil _).symm, rfl⟩

theorem Follows.trans {es es' : List (Event F)} {s s' s'' : Link ρ F} (h : Follows es s s')
    (h' : Follows es' s' s'')
    : Follows (es ++ es') s s'' where
  run := by rw [Loop.run_append, h.run, Option.bind_some, h'.run]
  log := by rw [h'.log, h.log, List.append_assoc]
  read := h'.read.trans h.read

theorem Follows.continues {es : List (Event F)} {s s' : Link ρ F} (h : Follows es s s')
    : Continues s s' :=
  ⟨es, h.run, h.log⟩

theorem Continues.refl (s : Link ρ F) : Continues s s :=
  (Follows.refl s).continues

theorem Continues.trans {s s' s'' : Link ρ F} (h : Continues s s') (h' : Continues s' s'')
    : Continues s s'' := by
  obtain ⟨es, hrun, hlog⟩ := h
  obtain ⟨es', hrun', hlog'⟩ := h'
  refine ⟨es ++ es', ?_, ?_⟩
  . rw [Loop.run_append, hrun, Option.bind_some, hrun']
  . rw [hlog', hlog, List.append_assoc]

theorem follows_happen {s : Link ρ F} {e : Event F} (h : s.loop.step e = some l)
    : Follows [e] s (s.happen e) := by
  unfold happen
  rw [h]
  refine ⟨?_, rfl, rfl⟩
  rw [Loop.run_cons, h]
  rfl

theorem continues_happen (s : Link ρ F) (e : Event F) : Continues s (s.happen e) := by
  cases h : s.loop.step e with
  | some l => exact (follows_happen h).continues
  | none =>
    unfold happen
    rw [h]
    exact .refl s

theorem follows_goOn (s : Link ρ F) (es : List (Event F))
    : ∃ es', Follows es' s (s.goOn es) ∧ arrivals es' = [] ∧ .close ∉ es' := by
  unfold goOn
  induction es generalizing s with
  | nil => exact ⟨[], .refl s, rfl, List.not_mem_nil⟩
  | cons e es ih =>
    cases hown : isOwn e with
    | false =>
      rw [List.filter_cons_of_neg (by rw [hown]; decide)]
      exact ih s
    | true =>
      rw [List.filter_cons_of_pos hown, List.foldl_cons]
      obtain ⟨es', hfollows, harrivals, hclose⟩ := ih (s.happen e)
      cases hstep : s.loop.step e with
      | none =>
        -- An event that may not happen is not logged.
        have : s.happen e = s := by
          unfold happen
          rw [hstep]
        rw [this] at hfollows ⊢
        exact ⟨es', hfollows, harrivals, hclose⟩
      | some l =>
        refine ⟨e :: es', (follows_happen hstep).trans hfollows, ?_, ?_⟩
        . cases e with
          | arrival => contradiction
          | _ => exact harrivals
        . rw [List.mem_cons, not_or]
          refine ⟨?_, hclose⟩
          intro he
          rw [← he] at hown
          contradiction

theorem follows_arrival {s : Link ρ F} {piece : Segment F} (hpiece : piece.bytes ≠ [])
    (hopen : s.loop.socket.incoming.closed = false)
    : Follows [.arrival piece] s (s.happen (.arrival piece)) :=
  follows_happen <| Loop.step_eq_some_iff.mpr ⟨by simp [Loop.enabled, hopen, hpiece], rfl⟩

theorem follows_deliver {s : Link ρ F} {pieces : List (Segment F)} (rounds : List (List (Event F)))
    (hpieces : ∀ piece ∈ pieces, piece.bytes ≠ []) (hopen : s.loop.socket.incoming.closed = false)
    : ∃ es, Follows es s (s.deliver pieces rounds) ∧ arrivals es = pieces ∧ .close ∉ es := by
  induction pieces generalizing s rounds with
  | nil =>
    unfold deliver
    exact s.follows_goOn rounds.flatten
  | cons piece pieces ih =>
    rw [List.forall_mem_cons] at hpieces
    cases rounds with
    | nil =>
      unfold deliver
      have harrival := follows_arrival hpieces.1 hopen
      have hopen' := (Loop.closed_of_run harrival.run (by simp)).trans hopen
      obtain ⟨es, hfollows, harrivals, hclose⟩ := ih [] hpieces.2 hopen'
      refine ⟨_, harrival.trans hfollows, ?_, by simp [hclose]⟩
      rw [Loop.arrivals_append, harrivals]
      rfl
    | cons round rounds =>
      unfold deliver
      obtain ⟨es₁, hround, harrivals₁, hclose₁⟩ := s.follows_goOn round
      have hopen₁ := (Loop.closed_of_run hround.run hclose₁).trans hopen
      have harrival := follows_arrival hpieces.1 hopen₁
      have hopen₂ := (Loop.closed_of_run harrival.run (by simp)).trans hopen₁
      obtain ⟨es, hfollows, harrivals, hclose⟩ := ih rounds hpieces.2 hopen₂
      refine ⟨_, (hround.trans harrival).trans hfollows, ?_, by simp [hclose₁, hclose]⟩
      rw [Loop.arrivals_append, Loop.arrivals_append, harrivals₁, harrivals]
      rfl

theorem continues_deliver (s : Link ρ F) (pieces : List (Segment F))
    (rounds : List (List (Event F)))
    : Continues s (s.deliver pieces rounds) := by
  induction pieces generalizing s rounds with
  | nil =>
    unfold deliver
    obtain ⟨_, hfollows, _, _⟩ := s.follows_goOn rounds.flatten
    exact hfollows.continues
  | cons piece pieces ih =>
    cases rounds with
    | nil =>
      unfold deliver
      exact (continues_happen s _).trans (ih _ [])
    | cons round rounds =>
      unfold deliver
      obtain ⟨_, hround, _, _⟩ := s.follows_goOn round
      exact (hround.continues.trans (continues_happen _ _)).trans (ih _ rounds)

theorem continues_receive (s : Link ρ F) : Continues s s.receive.2 := by
  obtain ⟨_, hfollows, _, _⟩ := s.follows_goOn s.course.rounds.flatten
  unfold receive
  dsimp only
  split
  . exact hfollows.continues
  . exact hfollows.continues

theorem keeps_onFiles (a : StateM ρ α) : Keeps Continues (onFiles a : StateM (Link ρ F) α) :=
  fun s => .refl s

theorem keepsEnding_continues [FileSystem ρ]
    : KeepsEnding (Continues : Link ρ F → Link ρ F → Prop) where
  refl := .refl
  trans _ _ _ := .trans
  close s := continues_happen s .close
  kill s := .refl s
  wait s := .refl s
  errorOutput s := .refl s
  list _ := keeps_onFiles _
  removeDirectory _ := keeps_onFiles _

end Enclosure.Link
