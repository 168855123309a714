import Enclosure.ControlGroup.Root
import Enclosure.Proofs.FileSystem.Recorded

/-!
This module contains what is tried when a tree is removed, in any file system and whatever its calls
come to.
-/

namespace Enclosure

namespace ControlGroup

open Recorded (Records)

structure EachTried (base : String) (entries : List (Except IoFault (String × Bool)))
    (calls : List FileCall) (fault : Option GroupFault) : Prop where
  tried (name : String) : .ok (name, true) ∈ entries →
    ∃ result, .removeDirectory (Path.join base name) result ∈ calls
  nothingElse (call : FileCall) : call ∈ calls →
    ∃ name result,
      .ok (name, true) ∈ entries ∧ call = .removeDirectory (Path.join base name) result
  untold_iff :
    fault = none ↔ (∀ e, .error e ∉ entries) ∧ ∀ path e, .removeDirectory path (.error e) ∉ calls

namespace EachTried

variable {base : String} {entries : List (Except IoFault (String × Bool))} {calls : List FileCall}
  {fault : Option GroupFault}

theorem nil : EachTried base [] [] none where
  tried := by simp
  nothingElse := by simp
  untold_iff := by simp

theorem unread (h : EachTried base entries calls fault) (e : IoFault) (first : GroupFault)
    : EachTried base (.error e :: entries) calls (some first) where
  tried name hname := h.tried name (by simpa using hname)
  nothingElse call hcall := by
    obtain ⟨name, result, hname, hcall⟩ := h.nothingElse call hcall
    exact ⟨name, result, List.mem_cons_of_mem _ hname, hcall⟩
  untold_iff := by
    simp only [reduceCtorEq, false_iff, not_and]
    exact fun hread => absurd List.mem_cons_self (hread e)

theorem file (h : EachTried base entries calls fault) (name : String)
    : EachTried base (.ok (name, false) :: entries) calls fault where
  tried other hother := h.tried other (by simpa using hother)
  nothingElse call hcall := by
    obtain ⟨name, result, hname, hcall⟩ := h.nothingElse call hcall
    exact ⟨name, result, List.mem_cons_of_mem _ hname, hcall⟩
  untold_iff := by simpa using h.untold_iff

theorem directory (h : EachTried base entries calls fault) (name : String)
    (result : Except IoFault Unit) {first : Option GroupFault}
    (hfirst : first = none ↔ result = .ok () ∧ fault = none)
    : EachTried base (.ok (name, true) :: entries)
        (.removeDirectory (Path.join base name) result :: calls) first where
  tried other hother := by
    cases List.mem_cons.mp hother with
    | inl heq =>
      cases heq
      exact ⟨result, List.mem_cons_self⟩
    | inr hother =>
      obtain ⟨result', hcall⟩ := h.tried other hother
      exact ⟨result', List.mem_cons_of_mem _ hcall⟩
  nothingElse call hcall := by
    cases List.mem_cons.mp hcall with
    | inl heq => exact ⟨name, result, List.mem_cons_self, heq⟩
    | inr hcall =>
      obtain ⟨other, result', hother, hcall⟩ := h.nothingElse call hcall
      exact ⟨other, result', List.mem_cons_of_mem _ hother, hcall⟩
  untold_iff := by
    rw [hfirst, h.untold_iff]
    cases result with
    | ok => simp
    | error e =>
      simp only [reduceCtorEq, false_and, false_iff, not_and]
      exact fun _ hall => hall _ e List.mem_cons_self

end EachTried

/-- What is done to remove a tree, by what listing it has come to. The tree itself is only tried
when no fault is told of what is in it. -/
inductive TreeTried (base : String)
    : Except IoFault (List (Except IoFault (String × Bool))) → List FileCall →
        Except GroupFault Unit → Prop where
  | missing : e.isNotFound → TreeTried base (.error e) [.look base] (.ok ())
  | unopened : ¬ e.isNotFound →
      TreeTried base (.error e) [.look base] (.error (.io "opendir" base e))
  | held : EachTried base entries calls (some fault) →
      TreeTried base (.ok entries) (.look base :: calls) (.error fault)
  | last (result : Except IoFault Unit) : EachTried base entries calls none →
      TreeTried base (.ok entries) (.look base :: (calls ++ [.removeDirectory base result]))
        (result.mapError (.io "rmdir" base))

variable {σ : Type} [FileSystem σ]

theorem records_removeEach (base : String) (entries : List (Except IoFault (String × Bool)))
    : Records (EachTried base entries) (removeEach base entries : StateM (Recorded σ) _)
        (removeEach base entries : StateM σ _) := by
  induction entries with
  | nil => exact .pure .nil
  | cons entry entries ih =>
    cases entry with
    | error e =>
      refine .bind ih fun fault => ?_
      apply Records.pure
      intro calls hcalls
      rw [List.append_nil]
      exact hcalls.unread e _
    | ok entry =>
      obtain ⟨name, _ | _⟩ := entry
      . exact ih.weaken fun calls fault h => h.file name
      . refine .bind (.record _ _) fun result => .bind ih fun later => ?_
        cases result with
        | ok =>
          apply Records.pure
          rintro calls hcalls before rfl
          rw [List.append_nil]
          exact hcalls.directory name (.ok ()) (by simp)
        | error e =>
          apply Records.pure
          rintro calls hcalls before rfl
          rw [List.append_nil]
          exact hcalls.directory name (.error e) (by simp)

theorem removeTree_tried (root : String) (pid : UInt32) (s : σ)
    : TreeTried (treePath root pid) (FileSystem.list (treePath root pid) s).1
        ((removeTree root pid : GroupM (Recorded σ) Unit).run { state := s }).2.calls
        ((removeTree root pid : GroupM σ Unit).run s).1 := by
  rcases hlist : FileSystem.list (treePath root pid) s with ⟨answer, s'⟩
  have hlook : (FileSystem.list (treePath root pid) : StateM (Recorded σ) _) { state := s }
      = (answer, { state := s', calls := [.look (treePath root pid)] }) := by
    change Recorded.record _ _ _ = _
    unfold Recorded.record
    rw [hlist]
    rfl
  unfold removeTree
  rw [ExceptT.run_lift_bind_apply, ExceptT.run_lift_bind_apply, hlist, hlook]
  cases answer with
  | error e =>
    dsimp only
    split
    . next hmissing => exact .missing hmissing
    . next hmissing => exact .unopened hmissing
  | ok entries =>
    refine Records.elim (motive := TreeTried (treePath root pid) (.ok entries))
      (r := { state := s', calls := [.look (treePath root pid)] }) ?_
    refine .run_lift_bind (records_removeEach _ entries) fun fault => ?_
    cases fault with
    | some fault =>
      apply Records.pure
      intro calls hcalls
      rw [List.append_nil]
      exact .held hcalls
    | none =>
      refine .run_lift_bind (.record _ _) fun result => ?_
      cases result with
      | ok =>
        apply Records.pure
        rintro last rfl calls hcalls
        exact .last (.ok ()) hcalls
      | error e =>
        apply Records.pure
        rintro last rfl calls hcalls
        exact .last (.error e) hcalls

-- A tree is removed without a fault only if all that is in it has been read, and each directory
-- in it has gone, and the tree itself.
theorem all_gone_of_removeTree {root : String} {pid : UInt32} {s : σ}
    {entries : List (Except IoFault (String × Bool))}
    (hlist : (FileSystem.list (treePath root pid) s).1 = .ok entries)
    (hok : ((removeTree root pid : GroupM σ Unit).run s).1 = .ok ())
    : (∀ e, .error e ∉ entries)
        ∧ ∀ path,
          path = treePath root pid
              ∨ (∃ name, .ok (name, true) ∈ entries ∧ path = Path.join (treePath root pid) name) →
            .removeDirectory path (.ok ())
              ∈ ((removeTree root pid : GroupM (Recorded σ) Unit).run { state := s }).2.calls := by
  have htried := removeTree_tried root pid s
  rw [hlist, hok] at htried
  generalize ((removeTree root pid : GroupM (Recorded σ) Unit).run { state := s }).2.calls = calls
    at htried ⊢
  generalize hresult : (Except.ok () : Except GroupFault Unit) = result at htried
  cases htried with
  | held => contradiction
  | last last h =>
    obtain ⟨hread, hgone⟩ := h.untold_iff.mp rfl
    refine ⟨hread, ?_⟩
    rintro path (rfl | ⟨name, hname, rfl⟩)
    . cases last with
      | ok => simp
      | error => contradiction
    . obtain ⟨result, hcall⟩ := h.tried name hname
      cases result with
      | ok => simp [hcall]
      | error e => exact absurd hcall (hgone _ e)

end ControlGroup

end Enclosure
