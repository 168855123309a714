import Enclosure.Client.Scripted
import Enclosure.Proofs.Client.Turn
import Enclosure.Proofs.Configuration.Forwarding
import Enclosure.Proofs.ControlGroup.Root
import Enclosure.Supervisor.Preparation

/-!
This module contains the agreement of a client and its supervisor on the directory that the
supervisor's tree is below. The client finds it, hands it on, and removes the tree from there.
-/

namespace Enclosure

open ControlGroup

namespace Configuration

variable {σ : Type} [FileSystem σ] {c : Configuration} {s s' : σ} {root : String}

theorem root_of_groupRoot (h : c.groupRoot = some root) (s : σ)
    : (c.root : GroupM σ String).run s = (.ok root, s) := by
  unfold Configuration.root
  rw [h]
  rfl

theorem own_of_root (hnone : c.groupRoot = none)
    (hroot : (c.root : GroupM σ String).run s = (.ok root, s'))
    : ∃ content,
        (FileSystem.read "/proc/self/cgroup" s).1 = .ok content
          ∧ parseOwn content = .ok root := by
  unfold Configuration.root at hroot
  rw [hnone] at hroot
  dsimp only at hroot
  unfold own readFile at hroot
  rw [ExceptT.run_bind_apply, named_run] at hroot
  rcases hread : (FileSystem.read "/proc/self/cgroup" : StateM σ _) s with ⟨e | content, s₁⟩
  . rw [hread] at hroot
    cases hroot
  . rw [hread] at hroot
    dsimp only at hroot
    refine ⟨content, rfl, ?_⟩
    cases hparse : parseOwn content with
    | error e =>
      rw [hparse] at hroot
      cases hroot
    | ok parsed =>
      rw [hparse] at hroot
      cases hroot
      rfl

theorem root_cases (hroot : (c.root : GroupM σ String).run s = (.ok root, s'))
    : c.groupRoot = some root
        ∨ c.groupRoot = none
          ∧ ∃ content entry,
              (FileSystem.read "/proc/self/cgroup" s).1 = .ok content ∧ IsOwnEntry content entry
                ∧ ¬ IsDeleted entry
                ∧ root = hierarchy ++ "/" ++ String.ofList (entry.dropWhile (· = '/')) := by
  cases hgroup : c.groupRoot with
  | some given =>
    rw [root_of_groupRoot hgroup] at hroot
    cases hroot
    exact .inl rfl
  | none =>
    obtain ⟨content, hread, hparse⟩ := own_of_root hgroup hroot
    obtain ⟨entry, hentry, hkept, hroot⟩ := isOwnEntry_of_parseOwn hparse
    exact .inr ⟨rfl, content, entry, hread, hentry, hkept, hroot⟩

theorem isAbsolute_root (hvalid : c.validate = .ok ())
    (hroot : (c.root : GroupM σ String).run s = (.ok root, s'))
    : Path.isAbsolute root := by
  cases root_cases hroot with
  | inl hgiven => exact ((validate_eq_ok_iff c).mp hvalid).2.2 root hgiven
  | inr hown =>
    obtain ⟨_, _, entry, _, _, _, hroot⟩ := hown
    rw [Path.isAbsolute_iff]
    refine ⟨"sys/fs/cgroup/" ++ String.ofList (entry.dropWhile (· = '/')), ?_⟩
    rw [hroot, ← String.append_assoc]
    rfl

end Configuration

namespace Supervisor

-- A supervisor with these variables works below this root, whatever its own control group is.
def UsesRoot (vars : List (String × String)) (root : String) : Prop :=
  ∃ c, Configuration.ofVariables vars = .ok c ∧ c.groupRoot = some root
    ∧ ∀ (σ : Type) [FileSystem σ] [Confinement σ] (s : σ),
        (c.root : GroupM σ String).run s = (.ok root, s)
          ∧ ∀ pid,
              prepare pid vars s
                = match (Tree.setup root pid : GroupM σ Tree).run s with
                  | (.ok tree, s') => (.ok (c, tree), s')
                  | (.error e, s') => (.error (.groups e), s')

theorem usesRoot_of_perm {c : Configuration} (hvalid : c.validate = .ok ()) {root : String}
    (habsolute : Path.isAbsolute root) {log : Option String} {vars : List (String × String)}
    (hvars : vars.Perm (c.forwarded root log))
    : UsesRoot vars root := by
  have hforwarded : Configuration.validate { c with groupRoot := some root } = .ok () := by
    rw [Configuration.validate_eq_ok_iff] at *
    exact ⟨hvalid.1, hvalid.2.1, by simpa using habsolute⟩
  have hrestored := Configuration.ofVariables_of_perm hforwarded hvars
  refine ⟨_, hrestored, rfl, ?_⟩
  intro σ _ _ s
  have hroot := Configuration.root_of_groupRoot (σ := σ)
    (c := Configuration.restored { c with groupRoot := some root }) rfl s
  refine ⟨hroot, ?_⟩
  intro pid
  unfold prepare
  rw [hrestored]
  dsimp only
  rw [StateM.bind_apply, hroot]
  dsimp only
  rw [StateM.bind_apply]
  rcases (Tree.setup root pid : GroupM σ Tree).run s with ⟨e | tree, s'⟩
  . rfl
  . rfl

end Supervisor

namespace Configuration

variable {σ : Type} [FileSystem σ] {R : σ → σ → Prop}

theorem keeps_firstFile (h : KeepsReads R) (paths : List String)
    : Keeps R (firstFile paths) := by
  induction paths with
  | nil => exact h.refl
  | cons path paths ih =>
    unfold firstFile
    refine .bind h.trans (h.isFile path) fun isFile => ?_
    split
    . exact h.refl
    . exact ih

theorem keeps_supervisor (h : KeepsReads R) (c : Configuration)
    (ownDirectory searchPath : Option String)
    : Keeps R (c.supervisor ownDirectory searchPath) := by
  unfold supervisor
  cases c.supervisorPath with
  | some path => exact h.refl
  | none =>
    dsimp only
    exact .bind h.trans (keeps_firstFile h _) fun _ => h.refl

theorem keeps_root (h : KeepsReads R) (c : Configuration)
    : Keeps R (c.root : GroupM σ String).run := by
  unfold Configuration.root
  cases c.groupRoot with
  | some root => exact h.refl
  | none =>
    unfold own
    refine .group_bind h.trans (keeps_readFile h _) fun content => ?_
    cases parseOwn content with
    | ok => exact h.refl
    | error => exact h.refl

end Configuration

namespace Connection

variable {σ F : Type} [FileSystem σ] [Peer σ F]

theorem spawn_cases (c : Configuration) (ownDirectory searchPath log : Option String)
    (j : Journal σ F)
    : (∃ fault j',
          spawn c ownDirectory searchPath log j = (.error fault, j')
            ∧ Journal.Adds Journal.Looks j j')
        ∨ ∃ root path result j₁ j₂ j₃ s',
            (c.root : GroupM (Journal σ F) String).run j₁ = (.ok root, j₂)
              ∧ Journal.Adds Journal.Looks j j₃
              ∧ spawn c ownDirectory searchPath log j
                = (match result with
                    | .ok token => .ok { token, root, shutdownTimeout := c.shutdownTimeout }
                    | .error e => .error (.launch path e),
                  ⟨s', j₃.operations ++ [.launch path (c.forwarded root log) result]⟩) := by
  have hreads := Journal.keepsReads_looks (σ := σ) (F := F)
  unfold spawn
  cases c.validate with
  | error e => exact .inl ⟨_, j, rfl, Journal.adds_refl j⟩
  | ok =>
    dsimp only
    rw [StateM.bind_apply, StateM.bind_apply]
    have h₁ := Configuration.keeps_supervisor hreads c ownDirectory searchPath j
    rcases hpath : c.supervisor ownDirectory searchPath j with ⟨path, j₁⟩
    rw [hpath] at h₁
    have h₂ := Journal.adds_trans _ _ _ h₁ (Configuration.keeps_root hreads c j₁)
    rw [ExceptT.run_bind_apply]
    rcases hroot : (c.root : GroupM (Journal σ F) String).run j₁ with ⟨e | root, j₂⟩
    . rw [hroot] at h₂
      exact .inl ⟨_, j₂, rfl, h₂⟩
    . rw [hroot] at h₂
      have h₃ := Journal.adds_trans _ _ _ h₂ (keeps_checkRoot hreads root j₂)
      dsimp only
      rw [ExceptT.run_bind_apply]
      rcases hcheck : (checkRoot root : GroupM (Journal σ F) Unit).run j₂ with ⟨e | _, j₃⟩
      . rw [hcheck] at h₃
        exact .inl ⟨_, j₃, rfl, h₃⟩
      . rw [hcheck] at h₃
        rcases hlaunch : (Peer.launch path (c.forwarded root log) : StateM σ _) j₃.state
          with ⟨result, s'⟩
        have hnote : (Peer.launch path (c.forwarded root log) : StateM (Journal σ F) _) j₃
            = (result, ⟨s', j₃.operations ++ [.launch path (c.forwarded root log) result]⟩) :=
          Journal.note_eq hlaunch _
        refine .inr ⟨root, path, result, j₁, j₂, j₃, s', hroot, h₃, ?_⟩
        change (Peer.launch path (c.forwarded root log) >>= _) j₃ = _
        rw [StateM.bind_apply, hnote]
        cases result with
        | ok => rfl
        | error => rfl

theorem launch_of_spawn {c : Configuration} {ownDirectory searchPath log : Option String} {s : σ}
    {path : String} {vars : List (String × String)} {result : Except IoFault UInt32}
    (h : .launch path vars result
      ∈ (spawn c ownDirectory searchPath log { state := s : Journal σ F }).2.operations)
    : ∃ root j j',
        (c.root : GroupM (Journal σ F) String).run j = (.ok root, j')
          ∧ vars = c.forwarded root log
          ∧ ∀ token, result = .ok token →
              (spawn c ownDirectory searchPath log { state := s : Journal σ F }).1
                = .ok { token, root, shutdownTimeout := c.shutdownTimeout } := by
  have hnone {j : Journal σ F} (hlooks : Journal.Adds Journal.Looks { state := s } j)
      : .launch path vars result ∉ j.operations := by
    obtain ⟨rest, hrest, hlooks⟩ := hlooks
    rw [hrest]
    intro hlaunch
    obtain ⟨_, _, hlook⟩ := hlooks _ hlaunch
    contradiction
  cases spawn_cases c ownDirectory searchPath log { state := s : Journal σ F } with
  | inl hfault =>
    obtain ⟨_, j', hspawn, hlooks⟩ := hfault
    rw [hspawn] at h
    exact absurd h (hnone hlooks)
  | inr hlaunched =>
    obtain ⟨root, _, result', j₁, j₂, j₃, _, hroot, hlooks, hspawn⟩ := hlaunched
    rw [hspawn, List.mem_append, List.mem_singleton, Operation.launch.injEq] at h
    obtain ⟨-, hvars, hresult⟩ := h.resolve_left (hnone hlooks)
    refine ⟨root, j₁, j₂, hroot, hvars, ?_⟩
    intro token htoken
    rw [hspawn, ← hresult, htoken]

theorem launches_of_spawn {c : Configuration} {ownDirectory searchPath log : Option String}
    {j : Journal σ F} {k : Connection}
    (h : (spawn c ownDirectory searchPath log j).1 = .ok k)
    : ∃ path,
        .launch path (c.forwarded k.root log) (.ok k.token)
          ∈ (spawn c ownDirectory searchPath log j).2.operations := by
  cases spawn_cases c ownDirectory searchPath log j with
  | inl hfault =>
    obtain ⟨_, _, hspawn, _⟩ := hfault
    rw [hspawn] at h
    contradiction
  | inr hlaunched =>
    obtain ⟨root, path, result, _, _, j₃, _, _, _, hspawn⟩ := hlaunched
    rw [hspawn] at h ⊢
    cases result with
    | error => contradiction
    | ok token =>
      cases h
      exact ⟨path, List.mem_append_right _ (List.mem_singleton_self _)⟩

/-- The supervisor builds the tree that its client removes. -/
structure BuildsRemoved [Confinement σ] (root : String) (pid : UInt32) (j : Journal σ F)
    : Prop where
  base : ∀ tree j',
    (Tree.setup root pid : GroupM (Journal σ F) Tree).run j = (.ok tree, j') →
      tree = { base := treePath root pid }
  made : Journal.Does ((Tree.directories (treePath root pid)).map (.onPath .makeDirectory))
    (Tree.setup root pid : GroupM (Journal σ F) Tree)
  makes : Journal.Adds (Journal.MakesOnly (Tree.directories (treePath root pid))) j
    ((Tree.setup root pid : GroupM (Journal σ F) Tree).run j).2
  removes : Journal.Removes (treePath root pid) j
    ((removeTree root pid : GroupM (Journal σ F) Unit).run j).2

omit [Peer σ F] in
theorem buildsRemoved [Confinement σ] (root : String) (pid : UInt32) (j : Journal σ F)
    : BuildsRemoved root pid j where
  base tree j' h := setup_ensures root pid j tree j' h
  made := Journal.does_setup root pid
  makes := keeps_setup (Journal.keepsSetup_makesOnly _) j
  removes := Journal.removes_removeTree root pid j

/-- A client and its supervisor agree on the root, which the client alone has found. -/
theorem root_agreed {c : Configuration} (hvalid : c.validate = .ok ()) {s s' : σ} {root : String}
    (hroot : (c.root : GroupM σ String).run s = (.ok root, s'))
    : Path.isAbsolute root
        ∧ (c.groupRoot = some root
            ∨ c.groupRoot = none
              ∧ ∃ content entry,
                  (FileSystem.read "/proc/self/cgroup" s).1 = .ok content
                    ∧ IsOwnEntry content entry ∧ ¬ IsDeleted entry
                    ∧ root = "/sys/fs/cgroup" ++ "/" ++ String.ofList (entry.dropWhile (· = '/')))
        ∧ (∀ content entry,
            IsOwnEntry content entry → IsDeleted entry →
              parseOwn content
                = .error (.ownGroup ("own cgroup was removed: " ++ String.ofList entry)))
        ∧ (∀ log vars, vars.Perm (c.forwarded root log) → Supervisor.UsesRoot vars root)
        ∧ (∀ (τ : Type) [FileSystem τ] [Confinement τ] (pid : UInt32) (j : Journal τ F),
            BuildsRemoved root pid j)
        ∧ (∀ ownDirectory searchPath log t path vars result,
            .launch path vars result
                ∈ (spawn c ownDirectory searchPath log { state := t : Journal σ F }).2.operations →
              ∃ found j j',
                (c.root : GroupM (Journal σ F) String).run j = (.ok found, j')
                  ∧ vars = c.forwarded found log
                  ∧ ∀ token, result = .ok token →
                      (spawn c ownDirectory searchPath log { state := t : Journal σ F }).1
                        = .ok { token, root := found, shutdownTimeout := c.shutdownTimeout })
        ∧ ∀ ownDirectory searchPath log (j : Journal σ F) k,
            (spawn c ownDirectory searchPath log j).1 = .ok k →
              ∃ path,
                .launch path (c.forwarded k.root log) (.ok k.token)
                  ∈ (spawn c ownDirectory searchPath log j).2.operations := by
  have habsolute := Configuration.isAbsolute_root hvalid hroot
  refine ⟨habsolute, Configuration.root_cases hroot, ?_, ?_, ?_, ?_, ?_⟩
  . intro content entry hentry hdeleted
    cases parseOwn_of_entry hentry with
    | inl h => exact h.2
    | inr h => exact absurd hdeleted h.1
  . intro log vars hvars
    apply Supervisor.usesRoot_of_perm hvalid habsolute hvars
  . intro τ _ _ pid j
    apply buildsRemoved
  . intro ownDirectory searchPath log t path vars result h
    apply launch_of_spawn h
  . intro ownDirectory searchPath log j k h
    apply launches_of_spawn h

-- A client whose own control group is named on the second line.
def grouped : Scripted where
  files := FileTree.withFile {} ["proc", "self", "cgroup"] "4:cpu:/old\n0::/user.slice/own\n"
  program := "supervisor"
  script := []

theorem root_agreed_of_grouped
    : Configuration.validate {} = .ok ()
        ∧ (Configuration.root {} : GroupM Scripted String).run grouped
          = (.ok "/sys/fs/cgroup/user.slice/own", grouped)
        ∧ Supervisor.UsesRoot
            (Configuration.forwarded {} "/sys/fs/cgroup/user.slice/own" (some "debug"))
            "/sys/fs/cgroup/user.slice/own" := by
  have hvalid : Configuration.validate {} = .ok () := rfl
  have hroot : (Configuration.root {} : GroupM Scripted String).run grouped
      = (.ok "/sys/fs/cgroup/user.slice/own", grouped) := by
    rfl
  refine ⟨hvalid, hroot, ?_⟩
  apply (root_agreed hvalid hroot).2.2.2.1
  exact .refl _

end Connection

end Enclosure
