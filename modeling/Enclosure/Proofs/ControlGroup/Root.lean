import Enclosure.Client.Journal
import Enclosure.ControlGroup.Setup
import Enclosure.Proofs.ControlGroup.Effect
import Enclosure.Proofs.Text.Words

/-!
This module contains the theory of the directory that trees are below: which directory the own
control group is, and which directories are made when a tree is built there.
-/

namespace Enclosure

namespace ControlGroup

-- What the first line that names the own control group says.
def IsOwnEntry (content : String) (entry : List Char) : Prop :=
  ∃ front back,
    Text.lines content.toList = front ++ ("0::".toList ++ entry) :: back
      ∧ ∀ line ∈ front, ¬ "0::".toList <+: line

-- The name says that the control group has been removed.
def IsDeleted (entry : List Char) : Prop :=
  " (deleted)".toList <:+ entry

theorem ownEntry?_eq_some_iff {content : String} {entry : List Char}
    : ownEntry? content = some entry ↔ IsOwnEntry content entry := by
  unfold ownEntry? IsOwnEntry
  rw [List.findSome?_eq_some_iff]
  simp only [afterStart?_eq_some_iff, afterStart?_eq_none_iff]
  constructor
  . rintro ⟨front, _, back, hlines, rfl, hfront⟩
    exact ⟨front, back, hlines, hfront⟩
  . rintro ⟨front, back, hlines, hfront⟩
    exact ⟨front, _, back, hlines, rfl, hfront⟩

theorem parseOwn_of_entry {content : String} {entry : List Char} (h : IsOwnEntry content entry)
    : (IsDeleted entry
          ∧ parseOwn content
            = .error (.ownGroup ("own cgroup was removed: " ++ String.ofList entry)))
        ∨ ¬ IsDeleted entry
          ∧ parseOwn content
            = .ok (hierarchy ++ "/" ++ String.ofList (entry.dropWhile (· = '/'))) := by
  unfold parseOwn
  rw [ownEntry?_eq_some_iff.mpr h]
  dsimp only
  split
  . next hdeleted => exact .inl ⟨isSome_beforeEnd?.mp hdeleted, rfl⟩
  . next hdeleted => exact .inr ⟨fun h => hdeleted (isSome_beforeEnd?.mpr h), rfl⟩

theorem isOwnEntry_of_parseOwn {content root : String} (h : parseOwn content = .ok root)
    : ∃ entry,
        IsOwnEntry content entry ∧ ¬ IsDeleted entry
          ∧ root = hierarchy ++ "/" ++ String.ofList (entry.dropWhile (· = '/')) := by
  cases hentry : ownEntry? content with
  | none =>
    unfold parseOwn at h
    rw [hentry] at h
    contradiction
  | some entry =>
    have hown := ownEntry?_eq_some_iff.mp hentry
    cases parseOwn_of_entry hown with
    | inl hdeleted =>
      rw [hdeleted.2] at h
      contradiction
    | inr hkept =>
      rw [hkept.2] at h
      exact ⟨entry, hown, hkept.1, (Except.ok.inj h).symm⟩

def Tree.directories (base : String) : List String :=
  [base, Path.join base "supervisor", Path.join base "pid1", Path.join base "nsdelegate-check"]

structure KeepsReads [FileSystem σ] (R : σ → σ → Prop) : Prop where
  refl : ∀ s, R s s
  trans : ∀ s t u, R s t → R t u → R s u
  read : ∀ path, Keeps R (FileSystem.read path)
  pathExists : ∀ path, Keeps R (FileSystem.pathExists path)
  isFile : ∀ path, Keeps R (FileSystem.isFile path)

structure KeepsSetup [FileSystem σ] [Confinement σ] (directories : List String)
    (R : σ → σ → Prop) : Prop extends KeepsReads R where
  makeDirectory : ∀ path ∈ directories, ∀ mode, Keeps R (FileSystem.makeDirectory path mode)
  removeDirectory : ∀ path, Keeps R (FileSystem.removeDirectory path)
  write : ∀ path content, Keeps R (FileSystem.write path content)
  openDirectory : ∀ path, Keeps R (FileSystem.openDirectory path)
  start : ∀ path outside limit, Keeps R (Confinement.start path outside limit)
  wait : Keeps R Confinement.wait

section Reads

variable {σ : Type} [FileSystem σ] {R : σ → σ → Prop}

theorem keeps_readFile (h : KeepsReads R) (path : String)
    : Keeps R (readFile path : GroupM σ String).run :=
  keeps_named _ _ (h.read path)

theorem keeps_checkRoot (h : KeepsReads R) (root : String)
    : Keeps R (checkRoot root : GroupM σ Unit).run := by
  unfold checkRoot
  refine .run_bind h.trans (h.read _) fun available => ?_
  cases available with
  | error e =>
    dsimp only
    split
    . exact h.refl
    . exact h.refl
  | ok available =>
    dsimp only
    rw [pure_bind]
    split
    . exact h.refl
    . refine .group_bind h.trans (keeps_readFile h _) fun enabled => ?_
      split
      . exact h.refl
      . refine .run_bind h.trans (h.pathExists _) fun hasType => ?_
        refine .group_bind h.trans (keeps_readFile h _) fun processes => ?_
        split
        . exact h.refl
        . exact h.refl

end Reads

variable {σ : Type} [FileSystem σ] [Confinement σ] {directories : List String} {R : σ → σ → Prop}

theorem setup_ensures (root : String) (pid : UInt32)
    : GroupM.Ensures (fun tree => tree = { base := treePath root pid })
        (Tree.setup root pid : GroupM σ Tree) := by
  unfold Tree.setup
  refine .bind fun _ => .bind fun _ => .bind fun _ => .bind fun _ => .bind fun _ => ?_
  exact .bind fun _ => .bind fun _ => .bind fun _ => .pure rfl

namespace KeepsSetup

variable (h : KeepsSetup directories R)
include h

theorem writeFile (path content : String) : Keeps R (writeFile path content : GroupM σ Unit).run :=
  keeps_named _ _ (h.write path content)

theorem writeOptional (path content : String)
    : Keeps R (writeOptional path content : GroupM σ Unit).run :=
  keeps_writeOptional h.refl h.trans (h.write path content)

theorem enableControllers (dir : String)
    : Keeps R (enableControllers dir : GroupM σ Unit).run := by
  unfold ControlGroup.enableControllers
  refine .group_bind h.trans (keeps_readFile h.toKeepsReads _) fun enabled => ?_
  split
  . exact h.refl
  . exact h.writeFile _ _

theorem makeMissing {path : String} (hpath : path ∈ directories)
    : Keeps R (makeMissing path : GroupM σ Unit).run := by
  unfold ControlGroup.makeMissing
  refine .run_bind h.trans (h.makeDirectory path hpath _) fun result => ?_
  cases result with
  | ok => exact h.refl
  | error e =>
    dsimp only
    split
    . exact h.refl
    . exact h.refl

theorem tryLeaving (base test : String)
    : Keeps R (tryLeaving base test : GroupM σ Unit).run := by
  have hpure {α : Type} (x : Except GroupFault α) : Keeps R (liftM x : GroupM σ α).run := by
    cases x with
    | ok => exact h.refl
    | error => exact h.refl
  unfold ControlGroup.tryLeaving
  refine .group_bind h.trans (hpure _) fun outside => ?_
  refine .group_bind h.trans (hpure _) fun limit => ?_
  refine .group_bind h.trans (keeps_named _ _ (h.openDirectory _)) fun _ => ?_
  refine .group_bind h.trans (keeps_named _ _ (.bind h.trans (h.start _ _ _) fun _ => h.refl))
    fun _ => ?_
  refine .group_bind h.trans (keeps_named _ _ (.bind h.trans h.wait fun _ => h.refl)) fun _ => ?_
  exact hpure _

theorem checkDelegation {base : String} (hbase : Path.join base "nsdelegate-check" ∈ directories)
    : Keeps R (checkDelegation base : GroupM σ Unit).run := by
  unfold ControlGroup.checkDelegation
  refine .group_bind h.trans (h.makeMissing hbase) fun _ => ?_
  refine .bind h.trans (h.tryLeaving _ _) fun result => ?_
  refine .bind h.trans (keeps_named _ _ (h.removeDirectory _)) fun removed => ?_
  exact h.refl

end KeepsSetup

theorem keeps_setup {root : String} {pid : UInt32}
    (h : KeepsSetup (Tree.directories (treePath root pid)) R)
    : Keeps R (Tree.setup root pid : GroupM σ Tree).run := by
  have hmake {path : String} (hpath : path ∈ Tree.directories (treePath root pid)) :=
    h.makeMissing hpath
  unfold Tree.directories at hmake
  unfold Tree.setup
  refine .group_bind h.trans (keeps_checkRoot h.toKeepsReads _) fun _ => ?_
  refine .group_bind h.trans (h.enableControllers _) fun _ => ?_
  refine .group_bind h.trans ?_ fun _ => ?_
  . simp only [List.forM_eq_forM, List.forM_cons, List.forM_nil]
    refine .group_bind h.trans (hmake (by simp)) fun _ => ?_
    refine .group_bind h.trans (hmake (by simp)) fun _ => ?_
    refine .group_bind h.trans (hmake ?_) fun _ => h.refl
    simp [Tree.initPath]
  . refine .group_bind h.trans (h.writeFile _ _) fun _ => ?_
    refine .group_bind h.trans (h.writeFile _ _) fun _ => ?_
    refine .group_bind h.trans (h.writeOptional _ _) fun _ => ?_
    refine .group_bind h.trans (h.writeOptional _ _) fun _ => ?_
    refine .group_bind h.trans (h.checkDelegation ?_) fun _ => h.refl
    simp [Tree.directories]

end ControlGroup

namespace Journal

variable {σ F : Type}

instance [Confinement σ] : Confinement (Journal σ F) where
  start path outside limit j :=
    let (result, state) := Confinement.start path outside limit j.state
    (result, { j with state })
  wait j :=
    let (result, state) := Confinement.wait j.state
    (result, { j with state })

def Adds (p : Operation F → Prop) (j j' : Journal σ F) : Prop :=
  ∃ rest, j'.operations = j.operations ++ rest ∧ ∀ o ∈ rest, p o

variable {p : Operation F → Prop}

theorem adds_refl (j : Journal σ F) : Adds p j j :=
  ⟨[], by simp, by simp⟩

theorem adds_trans (j j' j'' : Journal σ F) (h : Adds p j j') (h' : Adds p j' j'')
    : Adds p j j'' := by
  obtain ⟨rest, hrest, hp⟩ := h
  obtain ⟨rest', hrest', hp'⟩ := h'
  refine ⟨rest ++ rest', ?_, ?_⟩
  . rw [hrest', hrest, List.append_assoc]
  . rw [List.forall_mem_append]
    exact ⟨hp, hp'⟩

theorem adds_notePath (call : PathCall) (path : String) (h : p (.onPath call path)) (a : StateM σ α)
    : Keeps (Adds p) (notePath call path a : StateM (Journal σ F) α) :=
  fun _ => ⟨[.onPath call path], rfl, by simpa using h⟩

def MakesOnly (directories : List String) (o : Operation F) : Prop :=
  ∀ path, o = .onPath .makeDirectory path → path ∈ directories

theorem keepsSetup_makesOnly [FileSystem σ] [Confinement σ] (directories : List String)
    : ControlGroup.KeepsSetup directories (Adds (σ := σ) (F := F) (MakesOnly directories)) where
  refl := adds_refl
  trans := adds_trans
  makeDirectory path hpath _ := adds_notePath .makeDirectory path (by simpa [MakesOnly]) _
  removeDirectory path := adds_notePath .removeDirectory path nofun _
  write path _ := adds_notePath .write path nofun _
  read path := adds_notePath .read path nofun _
  openDirectory path := adds_notePath .openDirectory path nofun _
  pathExists path := adds_notePath .pathExists path nofun _
  isFile path := adds_notePath .isFile path nofun _
  start _ _ _ := adds_refl
  wait := adds_refl

-- Whenever it succeeds, these operations are among those that it does, in this order.
def Does (os : List (Operation F)) (a : GroupM (Journal σ F) α) : Prop :=
  ∀ j x j', a.run j = (.ok x, j') → ∃ rest, j'.operations = j.operations ++ rest ∧ os.Sublist rest

theorem Does.of_keeps {a : GroupM (Journal σ F) α} (h : Keeps (Adds p) a.run) : Does [] a := by
  intro j x j' hrun
  obtain ⟨rest, hrest, -⟩ := h j
  rw [hrun] at hrest
  exact ⟨rest, hrest, List.nil_sublist rest⟩

theorem Does.bind {os os' : List (Operation F)} {a : GroupM (Journal σ F) α}
    {f : α → GroupM (Journal σ F) β} (h : Does os a) (h' : ∀ x, Does os' (f x))
    : Does (os ++ os') (a >>= f) := by
  intro j y j'' hrun
  rw [ExceptT.run_bind_apply] at hrun
  split at hrun
  . next x j' hfirst =>
    obtain ⟨rest, hrest, hos⟩ := h j x j' hfirst
    obtain ⟨rest', hrest', hos'⟩ := h' x j' y j'' hrun
    refine ⟨rest ++ rest', ?_, hos.append hos'⟩
    rw [hrest', hrest, List.append_assoc]
  . cases hrun

theorem Does.skip {os : List (Operation F)} {a : GroupM (Journal σ F) α}
    {f : α → GroupM (Journal σ F) β} (h : Keeps (Adds p) a.run) (h' : ∀ x, Does os (f x))
    : Does os (a >>= f) :=
  (Does.of_keeps h).bind h'

theorem Does.cons {o : Operation F} {os : List (Operation F)} {a : GroupM (Journal σ F) α}
    {f : α → GroupM (Journal σ F) β} (h : Does [o] a) (h' : ∀ x, Does os (f x))
    : Does (o :: os) (a >>= f) :=
  h.bind h'

theorem does_makeMissing [FileSystem σ] (path : String)
    : Does [.onPath .makeDirectory path]
        (ControlGroup.makeMissing path : GroupM (Journal σ F) Unit) := by
  intro j x j' hrun
  unfold ControlGroup.makeMissing at hrun
  rw [ExceptT.run_lift_bind_apply] at hrun
  rcases hcall : (FileSystem.makeDirectory path 0o777 : StateM (Journal σ F) _) j
    with ⟨result, j''⟩
  have hnoted : j''.operations = j.operations ++ [.onPath .makeDirectory path] := by
    cases hcall
    rfl
  have hlast : j' = j'' := by
    rw [hcall] at hrun
    cases result with
    | ok => exact (Prod.mk.inj hrun).2.symm
    | error e =>
      dsimp only at hrun
      split at hrun
      . exact (Prod.mk.inj hrun).2.symm
      . cases hrun
  rw [hlast]
  exact ⟨_, hnoted, .refl _⟩

theorem does_checkDelegation [FileSystem σ] [Confinement σ] (base : String)
    : Does [.onPath .makeDirectory (Path.join base "nsdelegate-check")]
        (ControlGroup.checkDelegation base : GroupM (Journal σ F) Unit) := by
  have h := keepsSetup_makesOnly (σ := σ) (F := F) []
  unfold ControlGroup.checkDelegation
  refine (does_makeMissing _).cons fun _ => .of_keeps (p := MakesOnly []) ?_
  refine .bind h.trans (h.tryLeaving _ _) fun _ => ?_
  exact .bind h.trans (ControlGroup.keeps_named _ _ (h.removeDirectory _)) fun _ => h.refl

theorem does_setup [FileSystem σ] [Confinement σ] (root : String) (pid : UInt32)
    : Does ((ControlGroup.Tree.directories (ControlGroup.treePath root pid)).map
          (.onPath .makeDirectory))
        (ControlGroup.Tree.setup root pid : GroupM (Journal σ F) ControlGroup.Tree) := by
  have h := keepsSetup_makesOnly (σ := σ) (F := F) []
  unfold ControlGroup.Tree.setup ControlGroup.Tree.directories
  simp only [List.forM_eq_forM, List.forM_cons, List.forM_nil, bind_assoc, pure_bind, List.map]
  refine .skip (ControlGroup.keeps_checkRoot h.toKeepsReads _) fun _ => ?_
  refine .skip (h.enableControllers _) fun _ => ?_
  refine (does_makeMissing _).cons fun _ => ?_
  refine (does_makeMissing _).cons fun _ => ?_
  refine (does_makeMissing _).cons fun _ => ?_
  refine .skip (h.writeFile _ _) fun _ => ?_
  refine .skip (h.writeFile _ _) fun _ => ?_
  refine .skip (h.writeOptional _ _) fun _ => ?_
  refine .skip (h.writeOptional _ _) fun _ => ?_
  exact (does_checkDelegation _).cons fun _ => .of_keeps (p := MakesOnly []) h.refl

def Looks (o : Operation F) : Prop :=
  ∃ call path, o = .onPath call path

theorem keepsReads_looks [FileSystem σ]
    : ControlGroup.KeepsReads (Adds (σ := σ) (F := F) Looks) where
  refl := adds_refl
  trans := adds_trans
  read path := adds_notePath .read path ⟨_, _, rfl⟩ _
  pathExists path := adds_notePath .pathExists path ⟨_, _, rfl⟩ _
  isFile path := adds_notePath .isFile path ⟨_, _, rfl⟩ _

end Journal

end Enclosure
