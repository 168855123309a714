import Enclosure.Proofs.CommandLine.Steps
import Mathlib.Data.List.Nodup

/-!
This module contains the order of the steps of a plan below a root. Nothing is made twice, and each
mount has its place, but what is made lies in a directory only if no destination is deeper than the
directories before it.
-/

namespace Enclosure

section EachAfter

variable {P : List α → α → Prop}

def EachAfter (P : List α → α → Prop) (l : List α) : Prop :=
  ∀ front a back, l = front ++ a :: back → P front a

theorem eachAfter_nil : EachAfter P [] := by
  intro front a back h
  simp at h

theorem eachAfter_cons {a : α} {l : List α}
    : EachAfter P (a :: l) ↔ P [] a ∧ EachAfter (fun front => P (a :: front)) l := by
  constructor
  . intro h
    refine ⟨h [] a l rfl, fun front b back hl => h (a :: front) b back ?_⟩
    rw [hl, List.cons_append]
  . rintro ⟨hfirst, hrest⟩ front b back hl
    cases front with
    | nil =>
      cases hl
      exact hfirst
    | cons c front =>
      cases hl
      exact hrest front b back rfl

theorem eachAfter_append {l l' : List α}
    : EachAfter P (l ++ l') ↔ EachAfter P l ∧ EachAfter (fun front => P (l ++ front)) l' := by
  induction l generalizing P with
  | nil => simp [eachAfter_nil]
  | cons a l ih => simp only [List.cons_append, eachAfter_cons, ih, and_assoc]

theorem eachAfter_flatMap {P : List β → β → Prop} {f : α → List β} {l : List α}
    : EachAfter P (l.flatMap f)
        ↔ EachAfter (fun front a => EachAfter (fun inner => P (front.flatMap f ++ inner)) (f a)) l
    := by
  induction l generalizing P with
  | nil => simp [eachAfter_nil]
  | cons a l ih =>
    simp only [List.flatMap_cons, eachAfter_append, eachAfter_cons, ih, List.flatMap_nil,
      List.nil_append, List.append_assoc]

theorem eachAfter_map {P : List β → β → Prop} {f : α → β} {l : List α}
    : EachAfter P (l.map f) ↔ EachAfter (fun front a => P (front.map f) (f a)) l := by
  induction l generalizing P with
  | nil => simp [eachAfter_nil]
  | cons a l ih => simp only [List.map_cons, eachAfter_cons, ih, List.map_nil]

theorem eachAfter_congr {Q : List α → α → Prop} {l : List α} (h : ∀ front a, P front a ↔ Q front a)
    : EachAfter P l ↔ EachAfter Q l := by
  unfold EachAfter
  simp only [h]

theorem eachAfter_of_forall {l : List α} (h : ∀ a ∈ l, ∀ front, P front a) : EachAfter P l := by
  rintro front a back rfl
  exact h a (by simp) front

end EachAfter

namespace Path

-- An absolute path that is written in the shortest way.
def IsNormal (path : String) : Prop :=
  ∃ names : List String, (∀ name ∈ names, IsName name) ∧ path = "/" ++ "/".intercalate names

-- The path is a name in the root or in some directory.
def LiesIn (root : String) (isDirectory : String → Prop) (path : String) : Prop :=
  ∃ parent name,
    IsName name ∧ path = parent ++ "/" ++ name ∧ (parent = root ∨ isDirectory parent)

theorem isNormal_of_isName {name : String} (h : IsName name) : IsNormal ("/" ++ name) :=
  ⟨[name], by simpa using h, by simp⟩

theorem liesIn_of_isName {isDirectory : String → Prop} {name : String} (h : IsName name)
    : LiesIn "" isDirectory ("/" ++ name) :=
  ⟨"", name, h, by simp, .inl rfl⟩

theorem parent_eq_of_append_eq {parent parent' name name' : String} (h : IsName name)
    (h' : IsName name') (heq : parent ++ "/" ++ name = parent' ++ "/" ++ name')
    : parent = parent' := by
  have hlist : parent.toList ++ '/' :: name.toList = parent'.toList ++ '/' :: name'.toList := by
    simpa using congrArg String.toList heq
  apply String.toList_inj.mp
  rw [List.append_eq_append_iff] at hlist
  rcases hlist with ⟨_ | ⟨c, between⟩, hfront, hback⟩ | ⟨_ | ⟨c, between⟩, hfront, hback⟩
  . simpa using hfront.symm
  . obtain ⟨-, hname⟩ := List.cons.inj hback
    exact absurd (by simp [hname]) h.2
  . simpa using hfront
  . obtain ⟨-, hname⟩ := List.cons.inj hback
    exact absurd (by simp [hname]) h'.2

theorem liesIn_iff {root parent name : String} {isDirectory : String → Prop} (h : IsName name)
    : LiesIn root isDirectory (parent ++ "/" ++ name) ↔ parent = root ∨ isDirectory parent := by
  constructor
  . rintro ⟨parent', name', h', heq, hparent⟩
    rwa [parent_eq_of_append_eq h h' heq]
  . intro hparent
    exact ⟨parent, name, h, rfl, hparent⟩

theorem liesIn_append {root path : String} {isDirectory : String → Prop}
    : LiesIn root (fun d => ∃ tail, isDirectory tail ∧ root ++ tail = d) (root ++ path)
        ↔ LiesIn "" isDirectory path := by
  constructor
  . rintro ⟨parent, name, hname, hpath, rfl | ⟨tail, htail, rfl⟩⟩
    . refine ⟨"", name, hname, ?_, .inl rfl⟩
      rwa [String.append_assoc, String.append_right_inj] at hpath
    . refine ⟨tail, name, hname, ?_, .inr htail⟩
      rwa [String.append_assoc, String.append_assoc, String.append_right_inj,
        ← String.append_assoc] at hpath
  . rintro ⟨parent, name, hname, rfl, hparent⟩
    refine ⟨root ++ parent, name, hname, by simp only [String.append_assoc], ?_⟩
    cases hparent with
    | inl hroot => exact .inl (by rw [hroot, String.append_empty])
    | inr hdirectory => exact .inr ⟨parent, hdirectory, rfl⟩

end Path

namespace FileTree

theorem steps_intercalate {names : List String} (h : ∀ name ∈ names, Path.IsName name)
    : steps ("/".intercalate names) = names.map String.toList := by
  induction names with
  | nil => rfl
  | cons name names ih =>
    rw [List.forall_mem_cons] at h
    by_cases hlast : names = []
    . rw [hlast]
      exact steps_of_isName h.1
    . rw [String.intercalate_cons_of_ne_nil hlast, steps_append_slash, steps_of_isName h.1,
        ih h.2]
      rfl

theorem placeFrom_names (p : List String) {names : List String}
    (h : ∀ name ∈ names, Path.IsName name)
    : placeFrom p (names.map String.toList) = p ++ names := by
  induction names generalizing p with
  | nil => exact (List.append_nil p).symm
  | cons name names ih =>
    rw [List.forall_mem_cons] at h
    have hcurrent : name.toList ≠ ['.'] := fun hcurrent => h.1.1 (by simp [hcurrent])
    have hparent : name.toList ≠ ['.', '.'] := fun hparent => h.1.1 (by simp [hparent])
    rw [List.map_cons, placeFrom, if_neg hcurrent, if_neg hparent, ih _ h.2, String.ofList_toList]
    simp

theorem eq_of_place_eq (root : String) {path path' : String} (h : Path.IsNormal path)
    (h' : Path.IsNormal path') (heq : place (root ++ path) = place (root ++ path'))
    : path = path' := by
  obtain ⟨names, hnames, rfl⟩ := h
  obtain ⟨names', hnames', rfl⟩ := h'
  have hplace {names : List String} (hnames : ∀ name ∈ names, Path.IsName name)
      : place (root ++ ("/" ++ "/".intercalate names)) = place root ++ names := by
    change placeFrom [] (steps _) = _
    rw [← String.append_assoc, steps_append_slash, placeFrom_append, steps_intercalate hnames,
      placeFrom_names _ hnames]
    rfl
  rw [hplace hnames, hplace hnames', List.append_right_inj] at heq
  rw [heq]

end FileTree

namespace CommandLine

def MakesOnce (ops : List MountOp) : Prop :=
  ((ops.filterMap MountOp.made?).map FileTree.place).Nodup

def MountsOnMade (root : String) (ops : List MountOp) : Prop :=
  EachAfter (fun before op => ∀ path, op.mountedOn? = some path →
    path = root ∨ path ∈ before.filterMap MountOp.made?) ops

def MadeInside (root : String) (before : List MountOp) (op : MountOp) : Prop :=
  ∀ path, op.made? = some path →
    Path.LiesIn root (fun parent => ∃ mode, .directory { path := parent, mode } ∈ before) path

-- Each step finds the directory in which it makes something.
def MakesInside (root : String) (ops : List MountOp) : Prop :=
  EachAfter (MadeInside root) ops

namespace MountPoint

variable {root : String}

theorem made?_creation (p : MountPoint) : (p.creation root).made? = some (root ++ p.tail) := by
  unfold creation
  cases p.isDirectory with
  | true => rfl
  | false => rfl

theorem mountedOn?_creation (p : MountPoint) : (p.creation root).mountedOn? = none := by
  unfold creation
  cases p.isDirectory with
  | true => rfl
  | false => rfl

theorem filterMap_made?_steps (points : List MountPoint)
    : (points.flatMap (steps root)).filterMap MountOp.made?
        = (points.map (·.tail)).map (root ++ ·) := by
  induction points with
  | nil => rfl
  | cons p points ih =>
    rw [List.flatMap_cons, List.filterMap_append, ih, steps]
    simp [made?_creation, made?_mount]

theorem mountsOnMade_steps (points : List MountPoint)
    : MountsOnMade root (.tmpfs { path := root } :: points.flatMap (steps root)) := by
  unfold MountsOnMade
  rw [eachAfter_cons, eachAfter_flatMap]
  constructor
  . rintro path ⟨⟩
    exact .inl rfl
  . apply eachAfter_of_forall
    intro p _ front
    rw [steps, eachAfter_cons, eachAfter_cons, mountedOn?_creation, mountedOn?_mount]
    refine ⟨nofun, ?_, eachAfter_nil⟩
    rintro path ⟨⟩
    right
    simp [made?_creation]

theorem directory_mem_steps_iff {p : MountPoint} {path : String}
    : (∃ mode, .directory { path, mode } ∈ p.steps root)
        ↔ p.isDirectory ∧ root ++ p.tail = path := by
  have hmount mode : .directory { path, mode } ≠ p.mount (root ++ p.tail) := by
    intro heq
    have hmade := p.made?_mount (root ++ p.tail)
    rw [← heq] at hmade
    contradiction
  unfold steps creation
  simp only [List.mem_cons, List.not_mem_nil, or_false, hmount]
  cases p.isDirectory with
  | true => simp [eq_comm]
  | false => simp

theorem directory_mem_flatMap_iff {points : List MountPoint} {path : String}
    : (∃ mode, .directory { path, mode } ∈ points.flatMap (steps root))
        ↔ ∃ tail, (∃ p ∈ points, p.isDirectory ∧ p.tail = tail) ∧ root ++ tail = path := by
  simp only [List.mem_flatMap]
  constructor
  . rintro ⟨mode, p, hp, hstep⟩
    obtain ⟨hdirectory, hpath⟩ := directory_mem_steps_iff.mp ⟨mode, hstep⟩
    exact ⟨p.tail, ⟨p, hp, hdirectory, rfl⟩, hpath⟩
  . rintro ⟨_, ⟨p, hp, hdirectory, rfl⟩, hpath⟩
    obtain ⟨mode, hstep⟩ := directory_mem_steps_iff.mpr ⟨hdirectory, hpath⟩
    exact ⟨mode, p, hp, hstep⟩

theorem eachAfter_madeInside_steps_iff (before : List MountPoint) (p : MountPoint)
    : EachAfter
          (fun inner =>
            MadeInside root (.tmpfs { path := root } :: (before.flatMap (steps root) ++ inner)))
          (p.steps root)
        ↔ Path.LiesIn "" (fun tail => ∃ p' ∈ before, p'.isDirectory ∧ p'.tail = tail) p.tail := by
  unfold MadeInside
  rw [steps, eachAfter_cons, eachAfter_cons, made?_creation, made?_mount]
  simp only [Option.some.injEq, forall_eq', reduceCtorEq, false_implies, implies_true,
    eachAfter_nil, and_true, List.append_nil, List.mem_cons, false_or]
  simp only [directory_mem_flatMap_iff, Path.liesIn_append]

theorem makesInside_steps_iff (points : List MountPoint)
    : MakesInside root (.tmpfs { path := root } :: points.flatMap (steps root))
        ↔ EachAfter (fun before p =>
            Path.LiesIn "" (fun tail => ∃ p' ∈ before, p'.isDirectory ∧ p'.tail = tail) p.tail)
          points := by
  have htmpfs : MadeInside root [] (.tmpfs { path := root }) := nofun
  unfold MakesInside
  rw [eachAfter_cons, eachAfter_flatMap, eachAfter_congr eachAfter_madeInside_steps_iff]
  simp only [htmpfs, true_and]

end MountPoint

def ownPlaces : List String :=
  systemDirectories ++ ["/proc", "/tmp"]

theorem nodup_ownPlaces : ownPlaces.Nodup := by
  decide

theorem exists_isName_of_mem_ownPlaces {path : String} (h : path ∈ ownPlaces)
    : ∃ name, Path.IsName name ∧ path = "/" ++ name := by
  simp only [ownPlaces, systemDirectories, List.cons_append, List.nil_append, List.mem_cons,
    List.not_mem_nil, or_false] at h
  rcases h with rfl | rfl | rfl | rfl | rfl | rfl
  . exact ⟨"bin", by decide, rfl⟩
  . exact ⟨"lib", by decide, rfl⟩
  . exact ⟨"lib64", by decide, rfl⟩
  . exact ⟨"usr", by decide, rfl⟩
  . exact ⟨"proc", by decide, rfl⟩
  . exact ⟨"tmp", by decide, rfl⟩

theorem isNormal_of_mem_ownPlaces {path : String} (h : path ∈ ownPlaces) : Path.IsNormal path := by
  obtain ⟨name, hname, rfl⟩ := exists_isName_of_mem_ownPlaces h
  exact Path.isNormal_of_isName hname

theorem liesIn_of_mem_ownPlaces {isDirectory : String → Prop} {path : String}
    (h : path ∈ ownPlaces)
    : Path.LiesIn "" isDirectory path := by
  obtain ⟨name, hname, rfl⟩ := exists_isName_of_mem_ownPlaces h
  exact Path.liesIn_of_isName hname

variable {σ : Type} [FileSystem σ] {bindings : List Binding} {s : σ}

theorem mem_ownPlaces_of_mem_existing {directory : String} (h : directory ∈ MountPoint.existing s)
    : directory ∈ ownPlaces := by
  unfold MountPoint.existing at h
  exact List.mem_append_left _ (List.mem_of_mem_filter h)

theorem map_tail_all
    : (MountPoint.all s bindings).map (·.tail)
        = MountPoint.existing s ++ (bindings.map (·.destination) ++ ["/proc", "/tmp"]) := by
  unfold MountPoint.all
  rw [List.map_append, List.map_append, List.map_map, List.map_map, List.append_assoc]
  simp only [Function.comp_def, MountPoint.ofSystem, MountPoint.ofBinding, List.map_id_fun', id_eq]
  rfl

theorem nodup_tails (hdistinct : (bindings.map (·.destination)).Nodup)
    (hapart : ∀ b ∈ bindings, b.destination ∉ ownPlaces)
    : ((MountPoint.all s bindings).map (·.tail)).Nodup := by
  have hapart' : ∀ path ∈ bindings.map (·.destination), path ∉ ownPlaces := by
    simpa using hapart
  have hown := List.nodup_append'.mp nodup_ownPlaces
  rw [map_tail_all, List.nodup_append', List.nodup_append', List.disjoint_append_right]
  refine ⟨hown.1.filter _, ⟨hdistinct, hown.2.1, ?_⟩, ?_, ?_⟩
  . intro path hbinding hlast
    exact hapart' path hbinding (List.mem_append_right _ hlast)
  . intro path hexisting hbinding
    exact hapart' path hbinding (mem_ownPlaces_of_mem_existing hexisting)
  . intro path hexisting hlast
    exact hown.2.2 (List.mem_of_mem_filter hexisting) hlast

theorem isNormal_tail (hnormal : ∀ b ∈ bindings, Path.IsNormal b.destination) {tail : String}
    (h : tail ∈ (MountPoint.all s bindings).map (·.tail))
    : Path.IsNormal tail := by
  rw [map_tail_all, List.mem_append, List.mem_append] at h
  rcases h with hexisting | hbinding | hlast
  . exact isNormal_of_mem_ownPlaces (mem_ownPlaces_of_mem_existing hexisting)
  . obtain ⟨b, hb, rfl⟩ := List.mem_map.mp hbinding
    exact hnormal b hb
  . exact isNormal_of_mem_ownPlaces (List.mem_append_right _ hlast)

theorem makesOnce_all (root : String) (hnormal : ∀ b ∈ bindings, Path.IsNormal b.destination)
    (hdistinct : (bindings.map (·.destination)).Nodup)
    (hapart : ∀ b ∈ bindings, b.destination ∉ ownPlaces)
    : MakesOnce
        (.tmpfs { path := root } :: (MountPoint.all s bindings).flatMap (MountPoint.steps root))
    := by
  unfold MakesOnce
  rw [List.filterMap_cons_none rfl, MountPoint.filterMap_made?_steps, List.map_map]
  refine (nodup_tails hdistinct hapart).map_on fun tail htail tail' htail' heq => ?_
  exact FileTree.eq_of_place_eq root (isNormal_tail hnormal htail) (isNormal_tail hnormal htail')
    heq

theorem exists_directory_iff {d : String}
    : (∃ p ∈ (MountPoint.existing s).map MountPoint.ofSystem
            ++ bindings.map (MountPoint.ofBinding s),
          p.isDirectory ∧ p.tail = d)
        ↔ (d ∈ systemDirectories ∧ (FileSystem.isDirectory d s).1)
          ∨ ∃ b ∈ bindings, b.destination = d ∧ (FileSystem.isDirectory b.source s).1 := by
  rw [← List.mem_filter (p := fun d => (FileSystem.isDirectory d s).1)]
  constructor
  . rintro ⟨p, hp, hdirectory, rfl⟩
    cases List.mem_append.mp hp with
    | inl hsystem =>
      obtain ⟨directory, hexisting, rfl⟩ := List.mem_map.mp hsystem
      exact .inl hexisting
    | inr hbinding =>
      obtain ⟨b, hb, rfl⟩ := List.mem_map.mp hbinding
      exact .inr ⟨b, hb, rfl, hdirectory⟩
  . rintro (hexisting | ⟨b, hb, rfl, hdirectory⟩)
    . exact ⟨_, List.mem_append_left _ (List.mem_map_of_mem hexisting), rfl, rfl⟩
    . exact ⟨_, List.mem_append_right _ (List.mem_map_of_mem hb), hdirectory, rfl⟩

-- The places of a root are at its top, so only the destinations count.
theorem makesInside_all_iff (root : String)
    : MakesInside root
          (.tmpfs { path := root } :: (MountPoint.all s bindings).flatMap (MountPoint.steps root))
        ↔ EachAfter (fun before b =>
            Path.LiesIn ""
              (fun d =>
                (d ∈ systemDirectories ∧ (FileSystem.isDirectory d s).1)
                  ∨ ∃ b' ∈ before, b'.destination = d ∧ (FileSystem.isDirectory b'.source s).1)
              b.destination)
          bindings := by
  rw [MountPoint.makesInside_steps_iff, MountPoint.all, eachAfter_append, eachAfter_append,
    eachAfter_map, eachAfter_map]
  simp only [exists_directory_iff]
  refine ⟨fun h => h.1.2, fun h => ⟨⟨?_, h⟩, ?_⟩⟩
  . apply eachAfter_of_forall
    intro directory hexisting before
    exact liesIn_of_mem_ownPlaces (mem_ownPlaces_of_mem_existing hexisting)
  . rw [eachAfter_cons, eachAfter_cons]
    have hproc : "/proc" ∈ ownPlaces := by decide
    have htmp : "/tmp" ∈ ownPlaces := by decide
    exact ⟨liesIn_of_mem_ownPlaces hproc, liesIn_of_mem_ownPlaces htmp, eachAfter_nil⟩

variable [StableFileSystem σ]

/-- A root can be filled in the order of its plan exactly if no destination is deeper than the
directories before it. The plan makes a place for each destination, but not the directories on the
way there. -/
theorem makesInside_iff_destinations {root : String} {plan : Plan}
    (hplan : (plan? (some root) bindings s).1 = some plan)
    (hnormal : ∀ b ∈ bindings, Path.IsNormal b.destination)
    (hdistinct : (bindings.map (·.destination)).Nodup)
    (hapart : ∀ b ∈ bindings, b.destination ∉ ["/bin", "/lib", "/lib64", "/usr", "/proc", "/tmp"])
    : ∃ r,
        plan.newRoot = some r ∧ MakesOnce plan.mounts ∧ MountsOnMade r plan.mounts
          ∧ (MakesInside r plan.mounts
              ↔ EachAfter (fun before b =>
                  Path.LiesIn ""
                    (fun d =>
                      (d ∈ systemDirectories ∧ (FileSystem.isDirectory d s).1)
                        ∨ ∃ b' ∈ before,
                          b'.destination = d ∧ (FileSystem.isDirectory b'.source s).1)
                    b.destination)
                bindings) := by
  obtain ⟨-, rfl⟩ := plan?_eq_some_iff.mp hplan
  exact ⟨Path.trimSlashes root, rfl, makesOnce_all _ hnormal hdistinct hapart,
    MountPoint.mountsOnMade_steps _, makesInside_all_iff _⟩

def nested : Binding where
  source := "/dev/null"
  destination := "/a/b"

theorem isNormal_nested : Path.IsNormal nested.destination :=
  ⟨["a", "b"], by decide, rfl⟩

def withSrc : FileTree where
  entries := [(["src"], .directory 0o755)]

theorem makesInside_iff_destinations_of_withSrc
    : ∃ plan,
        (plan? (some "/r") [{ source := "/src", destination := "/a" }, nested] withSrc).1
            = some plan
          ∧ plan.newRoot = some "/r" ∧ MakesOnce plan.mounts ∧ MountsOnMade "/r" plan.mounts
          ∧ MakesInside "/r" plan.mounts := by
  have hplan : (plan? (some "/r") [{ source := "/src", destination := "/a" }, nested] withSrc).1
      = some _ := rfl
  have hname : Path.IsName "a" := by decide
  have hnormal
      : ∀ b ∈ [{ source := "/src", destination := "/a" }, nested], Path.IsNormal b.destination := by
    rw [List.forall_mem_cons, List.forall_mem_singleton]
    exact ⟨Path.isNormal_of_isName hname, isNormal_nested⟩
  refine ⟨_, hplan, ?_⟩
  obtain ⟨r, hroot, honce, hmounts, hinside⟩ :=
    makesInside_iff_destinations hplan hnormal (by decide) (by decide)
  obtain rfl : "/r" = r := Option.some.inj hroot
  refine ⟨hroot, honce, hmounts, hinside.mpr ?_⟩
  rw [eachAfter_cons, eachAfter_cons]
  refine ⟨Path.liesIn_of_isName hname, ⟨"/a", "b", by decide, rfl, ?_⟩, eachAfter_nil⟩
  exact .inr (.inr ⟨_, .head _, rfl, rfl⟩)

-- Nothing makes `/r/a`, where `/r/a/b` is to be made.
theorem not_makesInside_of_nested
    : ¬ ∀ (root : String) (specs : List String) (bindings : List Binding) (host : FileTree)
        (plan : Plan), specs.mapM Binding.parse = .ok bindings →
        (plan? (some root) bindings host).1 = some plan →
        (∀ b ∈ bindings, Path.IsNormal b.destination) → (bindings.map (·.destination)).Nodup →
        (∀ b ∈ bindings,
          b.destination ∉ ["/bin", "/lib", "/lib64", "/usr", "/proc", "/tmp"]) →
        ∃ r,
          plan.newRoot = some r ∧ MakesOnce plan.mounts ∧ MakesInside r plan.mounts
            ∧ MountsOnMade r plan.mounts := by
  intro h
  have hspecs : ["/dev/null:/a/b"].mapM Binding.parse = .ok [nested] := rfl
  have hplan : (plan? (some "/r") [nested] ({} : FileTree)).1 = some _ :=
    plan?_eq_some_iff.mpr ⟨by decide, rfl⟩
  have hnormal : ∀ b ∈ [nested], Path.IsNormal b.destination := by
    rw [List.forall_mem_singleton]
    exact isNormal_nested
  obtain ⟨r, hroot, -, hinside, -⟩ := h _ _ _ _ _ hspecs hplan hnormal (by decide) (by decide)
  obtain rfl : Path.trimSlashes "/r" = r := Option.some.inj hroot
  have hdestinations := (makesInside_all_iff (Path.trimSlashes "/r")).mp hinside
  have hplace : Path.LiesIn "" _ ("/a" ++ "/" ++ "b") := (eachAfter_cons.mp hdestinations).1
  have hname : Path.IsName "b" := by decide
  rcases (Path.liesIn_iff hname).mp hplace with htop | ⟨hsystem, -⟩ | ⟨b, hb, -⟩
  . revert htop
    decide
  . revert hsystem
    decide
  . contradiction

end CommandLine

end Enclosure
