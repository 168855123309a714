import Enclosure.ControlGroup.Root
import Enclosure.Proofs.FileSystem
import Enclosure.Proofs.FileSystem.Recorded
import Enclosure.Proofs.Text.Words

/-!
This module contains what the check of a directory promises: where it succeeds, turning the
controllers on is not needed or is allowed.
-/

namespace Enclosure.ControlGroup

open Recorded (Records)

theorem missingControllers_eq_nil_iff (list : String)
    : missingControllers list = []
        ↔ ∀ name ∈ controllers, IsPart Text.isBlank name.toList list.toList := by
  have hword : ∀ name ∈ controllers,
      name.toList ≠ [] ∧ ∀ c ∈ name.toList, Text.isBlank c = false := by
    simp [controllers, Text.isBlank]
  unfold missingControllers
  rw [List.filter_eq_nil_iff]
  apply forall₂_congr
  intro name hname
  rw [← Text.mem_words_iff (hword name hname).1 (hword name hname).2]
  simp

def holdsProcesses : String :=
  "it holds processes, so it cannot enable controllers for its children; "
    ++ "set cgroup_root to an empty delegated directory"

theorem ne_holdsProcesses (root : String) {reason : String} (h : reason.toList.head? ≠ some 'i')
    : GroupFault.unusableRoot root reason ≠ .unusableRoot root holdsProcesses := by
  rintro ⟨⟩
  apply h
  unfold holdsProcesses
  rw [String.toList_append]
  rfl

variable {σ : Type} [FileSystem σ]

def Contains (s : σ) (dir file content : String) : Prop :=
  (FileSystem.read (Path.join dir file) s).1 = .ok content

-- What the check of a directory comes to, as far as it matters here why it fails.
inductive Checked (root : String) (s : σ) : Except GroupFault Unit → Prop where
  | refused (f : GroupFault) : f ≠ .unusableRoot root holdsProcesses → Checked root s (.error f)
  | enabled (available enabled : String) :
      Contains s root "cgroup.controllers" available → missingControllers available = [] →
      Contains s root "cgroup.subtree_control" enabled → missingControllers enabled = [] →
      Checked root s (.ok ())
  | top (available enabled : String) :
      Contains s root "cgroup.controllers" available → missingControllers available = [] →
      Contains s root "cgroup.subtree_control" enabled → missingControllers enabled ≠ [] →
      (FileSystem.pathExists (Path.join root "cgroup.type") s).1 = false →
      Checked root s (.ok ())
  | empty (available enabled processes : String) :
      Contains s root "cgroup.controllers" available → missingControllers available = [] →
      Contains s root "cgroup.subtree_control" enabled → missingControllers enabled ≠ [] →
      Contains s root "cgroup.procs" processes → Text.trim processes.toList = [] →
      Checked root s (.ok ())
  | busy (enabled : String) :
      Contains s root "cgroup.subtree_control" enabled → missingControllers enabled ≠ [] →
      Checked root s (.error (.unusableRoot root holdsProcesses))

theorem readFile_run (path : String) (s : σ)
    : (readFile path : GroupM σ String).run s
        = ((FileSystem.read path s).1.mapError (.io "read" path), (FileSystem.read path s).2) := by
  unfold readFile
  rw [named_run]
  rcases FileSystem.read path s with ⟨_ | _, s'⟩ <;> rfl

theorem checkRoot_run [StableFileSystem σ] (root : String) (s : σ)
    : ∃ result, (checkRoot root : GroupM σ Unit).run s = (result, s) ∧ Checked root s result := by
  unfold checkRoot
  rw [ExceptT.run_lift_bind_apply, StableFileSystem.read]
  cases havailable : (FileSystem.read (Path.join root "cgroup.controllers") s).1 with
  | error e =>
    dsimp only
    split
    . exact ⟨_, rfl, .refused _ (ne_holdsProcesses root (by decide))⟩
    . exact ⟨_, rfl, .refused _ (by simp)⟩
  | ok available =>
    dsimp only
    rw [pure_bind]
    split
    . next missing rest hmissing =>
      refine ⟨_, rfl, .refused _ (ne_holdsProcesses root ?_)⟩
      have hfront : (toString "the ").toList = ['t', 'h', 'e', ' '] := rfl
      rw [String.toList_append, String.toList_append, hfront]
      simp
    . next hnone =>
      have hmissing : missingControllers available = [] := by
        cases h : missingControllers available with
        | nil => rfl
        | cons missing rest => exact absurd h (hnone missing rest)
      rw [ExceptT.run_bind_apply, readFile_run, StableFileSystem.read]
      cases henabled : (FileSystem.read (Path.join root "cgroup.subtree_control") s).1 with
      | error e => exact ⟨_, rfl, .refused _ (by simp)⟩
      | ok enabled =>
        dsimp only [Except.mapError]
        split
        . next hon => exact ⟨_, rfl, .enabled available enabled havailable hmissing henabled hon⟩
        . next hoff =>
          rw [ExceptT.run_lift_bind_apply, StableFileSystem.pathExists, ExceptT.run_bind_apply,
            readFile_run, StableFileSystem.read]
          cases hprocesses : (FileSystem.read (Path.join root "cgroup.procs") s).1 with
          | error e => exact ⟨_, rfl, .refused _ (by simp)⟩
          | ok processes =>
            dsimp only [Except.mapError]
            split
            . exact ⟨_, rfl, .busy enabled henabled hoff⟩
            . next hfree =>
              rw [Bool.and_eq_true, not_and_or] at hfree
              refine ⟨_, rfl, ?_⟩
              cases hfree with
              | inl htop =>
                exact .top available enabled havailable hmissing henabled hoff (by simpa using htop)
              | inr hblank =>
                exact .empty available enabled processes havailable hmissing henabled hoff
                  hprocesses (by simpa using hblank)

section Looks

variable {a : StateM (Recorded σ) α} {b : StateM σ α}

-- The first action does what the second one does, and nothing but to look at files.
def Looks (a : StateM (Recorded σ) α) (b : StateM σ α) : Prop :=
  Records (fun calls _ => ∀ c ∈ calls, ∃ path, c = .look path) a b

omit [FileSystem σ]

theorem looks_pure (x : α) : Looks (pure x : StateM (Recorded σ) α) (pure x) :=
  .pure (by simp)

theorem looks_record (path : String) (b : StateM σ α)
    : Looks (Recorded.record b fun _ => .look path) b :=
  fun _ => ⟨_, rfl, by simp⟩

theorem Looks.run_lift_bind {f : α → GroupM (Recorded σ) β} {g : α → GroupM σ β} (h : Looks a b)
    (h' : ∀ x, Looks (f x).run (g x).run)
    : Looks ((liftM a : GroupM (Recorded σ) α) >>= f).run ((liftM b : GroupM σ α) >>= g).run :=
  Records.run_lift_bind h fun x => (h' x).weaken fun _ _ hcalls _ hbefore =>
    List.forall_mem_append.mpr ⟨hbefore, hcalls⟩

theorem Looks.run_bind {a : GroupM (Recorded σ) α} {b : GroupM σ α}
    {f : α → GroupM (Recorded σ) β} {g : α → GroupM σ β} (h : Looks a.run b.run)
    (h' : ∀ x, Looks (f x).run (g x).run)
    : Looks (a >>= f).run (b >>= g).run :=
  Records.run_bind h (fun _ _ hcalls => hcalls) fun x => (h' x).weaken fun _ _ hcalls _ hbefore =>
    List.forall_mem_append.mpr ⟨hbefore, hcalls⟩

theorem looks_named (op path : String) {a : StateM (Recorded σ) (Except IoFault α)}
    {b : StateM σ (Except IoFault α)} (h : Looks a b)
    : Looks (named op path a).run (named op path b).run := by
  unfold named
  refine .run_lift_bind h fun x => ?_
  cases x with
  | ok => exact looks_pure _
  | error => exact looks_pure _

end Looks

theorem looks_checkRoot (root : String)
    : Looks (checkRoot root : GroupM (Recorded σ) Unit).run (checkRoot root : GroupM σ Unit).run
    := by
  unfold checkRoot
  refine .run_lift_bind (looks_record _ _) fun available => ?_
  cases available with
  | error e =>
    dsimp only
    split
    . exact looks_pure _
    . exact looks_pure _
  | ok available =>
    dsimp only
    rw [pure_bind, pure_bind]
    split
    . exact looks_pure _
    . refine .run_bind (looks_named _ _ (looks_record _ _)) fun enabled => ?_
      split
      . exact looks_pure _
      . refine .run_lift_bind (looks_record _ _) fun hasType => ?_
        refine .run_bind (looks_named _ _ (looks_record _ _)) fun processes => ?_
        split
        . exact looks_pure _
        . exact looks_pure _

-- What turning the controllers on comes to, with the calls for it.
def enabling (dir : String) (s : σ) : Except GroupFault Unit × Recorded σ :=
  (enableControllers dir : GroupM (Recorded σ) Unit).run { state := s }

theorem read_recorded (path : String) (s : σ)
    : FileSystem.read path ({ state := s } : Recorded σ)
        = ((FileSystem.read path s).1,
            { state := (FileSystem.read path s).2, calls := [.look path] }) := rfl

variable {root enabled : String} {s : σ}

theorem enabling_of_enabled [StableFileSystem σ]
    (h : Contains s root "cgroup.subtree_control" enabled) (hon : missingControllers enabled = [])
    : enabling root s
        = (.ok (), { state := s, calls := [.look (Path.join root "cgroup.subtree_control")] }) := by
  unfold enabling enableControllers
  dsimp only
  rw [ExceptT.run_bind_apply, readFile_run, read_recorded, h, StableFileSystem.read]
  dsimp only [Except.mapError]
  rw [if_pos hon]
  rfl

theorem enabling_of_missing (h : Contains s root "cgroup.subtree_control" enabled)
    (hoff : missingControllers enabled ≠ [])
    : ∃ r,
        (enabling root s).2.calls
          = [.look (Path.join root "cgroup.subtree_control"),
              .write (Path.join root "cgroup.subtree_control") enableText r] := by
  unfold enabling enableControllers
  dsimp only
  rw [ExceptT.run_bind_apply, readFile_run, read_recorded, h]
  dsimp only [Except.mapError]
  rw [if_neg hoff, writeFile, named_state]
  exact ⟨_, rfl⟩

-- The system lets the controllers be turned on: all of them are there, and the directory is the
-- top of the hierarchy or holds no processes.
structure MayEnable (root : String) (s : σ) : Prop where
  available : ∃ content,
    Contains s root "cgroup.controllers" content
      ∧ ∀ name ∈ ["pids", "memory", "cpu"], IsPart Text.isBlank name.toList content.toList
  free : (FileSystem.pathExists (Path.join root "cgroup.type") s).1 = false
    ∨ ∃ processes,
        Contains s root "cgroup.procs" processes ∧ ∀ c ∈ processes.toList, Text.isBlank c

/-- The check of a directory changes nothing. Where it succeeds, turning the controllers on is
either not needed or allowed, and where it tells of processes, it would be needed. -/
theorem mayEnable_of_checkRoot [StableFileSystem σ] (root : String) (s : σ)
    : let file := Path.join root "cgroup.subtree_control"
      ∃ result looks,
        (checkRoot root : GroupM (Recorded σ) Unit).run { state := s }
            = (result, { state := s, calls := looks })
          ∧ (∀ c ∈ looks, ∃ path, c = .look path)
          ∧ (result = .ok () →
              enabling root s = (.ok (), { state := s, calls := [.look file] })
                ∨ (∃ r, (enabling root s).2.calls = [.look file, .write file enableText r])
                  ∧ MayEnable root s)
          ∧ (result = .error (.unusableRoot root holdsProcesses) →
              ∃ r, (enabling root s).2.calls = [.look file, .write file enableText r]) := by
  intro file
  obtain ⟨result, hrun, hchecked⟩ := checkRoot_run root s
  obtain ⟨looks, hrecorded, hlooks⟩ := looks_checkRoot root { state := s }
  rw [hrun] at hrecorded
  refine ⟨result, looks, hrecorded, hlooks, ?_⟩
  cases hchecked with
  | refused f hf => exact ⟨nofun, fun h => absurd (Except.error.inj h) hf⟩
  | enabled available enabled _ _ henabled hon =>
    exact ⟨fun _ => .inl (enabling_of_enabled henabled hon), nofun⟩
  | top available enabled havailable hall henabled hoff htop =>
    have hmay : MayEnable root s :=
      ⟨⟨available, havailable, (missingControllers_eq_nil_iff available).mp hall⟩, .inl htop⟩
    exact ⟨fun _ => .inr ⟨enabling_of_missing henabled hoff, hmay⟩, nofun⟩
  | empty available enabled processes havailable hall henabled hoff hprocesses hblank =>
    have hmay : MayEnable root s :=
      ⟨⟨available, havailable, (missingControllers_eq_nil_iff available).mp hall⟩,
        .inr ⟨processes, hprocesses, (Text.trim_eq_nil_iff _).mp hblank⟩⟩
    exact ⟨fun _ => .inr ⟨enabling_of_missing henabled hoff, hmay⟩, nofun⟩
  | busy enabled henabled hoff => exact ⟨nofun, fun _ => enabling_of_missing henabled hoff⟩

-- A directory with the controllers, which are off for its children.
def delegated : FileTree where
  entries :=
    [(["r"], .directory 0o755),
      (["r", "cgroup.controllers"], .file 0o644 "cpuset cpu io memory pids\n"),
      (["r", "cgroup.subtree_control"], .file 0o644 "cpuset\n"),
      (["r", "cgroup.procs"], .file 0o644 ""),
      (["r", "cgroup.type"], .file 0o644 "domain\n")]

theorem mayEnable_of_checkRoot_delegated
    : ((checkRoot "/r" : GroupM (Recorded FileTree) Unit).run { state := delegated }).1 = .ok ()
        ∧ (∃ r,
          (enabling "/r" delegated).2.calls
            = [.look "/r/cgroup.subtree_control",
                .write "/r/cgroup.subtree_control" enableText r])
        ∧ MayEnable "/r" delegated := by
  have hchecked : ((checkRoot "/r" : GroupM (Recorded FileTree) Unit).run
      { state := delegated }).1 = .ok () := by
    decide +kernel
  have hwrites : (enabling "/r" delegated).2.calls.length = 2 := by decide +kernel
  obtain ⟨result, looks, hrun, -, hok, -⟩ := mayEnable_of_checkRoot "/r" delegated
  rw [hrun] at hchecked
  obtain hnothing | hmay := hok hchecked
  . rw [hnothing] at hwrites
    contradiction
  . rw [hrun]
    exact ⟨hchecked, hmay⟩

-- The controllers are off, and processes are there.
example
    : ((checkRoot "/r" : GroupM FileTree Unit).run
        { entries :=
            [(["r"], .directory 0o755),
              (["r", "cgroup.controllers"], .file 0o644 "cpu memory pids\n"),
              (["r", "cgroup.subtree_control"], .file 0o644 "\n"),
              (["r", "cgroup.procs"], .file 0o644 "1234\n"),
              (["r", "cgroup.type"], .file 0o644 "domain\n")] }).1
        = .error (.unusableRoot "/r"
            ("it holds processes, so it cannot enable controllers for its children; "
              ++ "set cgroup_root to an empty delegated directory")) := by
  decide +kernel

end Enclosure.ControlGroup
