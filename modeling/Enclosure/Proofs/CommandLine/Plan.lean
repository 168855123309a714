import Enclosure.CommandLine.Plan
import Enclosure.Proofs.Path
import Enclosure.Proofs.Request.Refusal
import Mathlib.Data.List.Forall2

/-!
This module contains where the mounts of a plan are. Below a root a destination is put right behind
the root, so the mounts stay inside exactly if no destination is a relative path.
-/

namespace Enclosure

theorem forall₂_of_mapM_eq_ok {f : α → Except ε β} {as : List α} {bs : List β}
    (h : as.mapM f = .ok bs)
    : List.Forall₂ (fun a b => f a = .ok b) as bs := by
  induction as generalizing bs with
  | nil =>
    cases h
    exact .nil
  | cons a as ih =>
    rw [List.mapM_cons] at h
    cases ha : f a with
    | error e =>
      rw [ha] at h
      contradiction
    | ok b =>
      cases has : as.mapM f with
      | error e =>
        rw [ha, has] at h
        contradiction
      | ok bs =>
        rw [ha, has] at h
        cases h
        exact .cons ha (ih has)

theorem exists_of_mapM_eq_ok {f : α → Except ε β} {as : List α} {bs : List β}
    (h : as.mapM f = .ok bs)
    : (∀ b ∈ bs, ∃ a ∈ as, f a = .ok b) ∧ ∀ a ∈ as, ∃ b ∈ bs, f a = .ok b := by
  have hall := forall₂_of_mapM_eq_ok h
  clear h
  induction hall with
  | nil => simp
  | cons hfirst _ ih =>
    obtain ⟨hforth, hback⟩ := ih
    simp only [List.mem_cons, forall_eq_or_imp, exists_eq_or_imp]
    exact ⟨⟨.inl hfirst, fun b hb => .inr (hforth b hb)⟩, .inl hfirst,
      fun a ha => .inr (hback a ha)⟩

namespace Path

-- The path is the root itself, or a slash follows the root.
def Inside (root path : String) : Prop :=
  path = root ∨ ∃ rest, path = root ++ "/" ++ rest

theorem inside_append_iff (root tail : String)
    : Inside root (root ++ tail) ↔ tail = "" ∨ isAbsolute tail := by
  rw [isAbsolute_iff]
  unfold Inside
  simp only [String.append_eq_left_iff, String.append_assoc, String.append_right_inj]

theorem Inside.isPrefix_names {root path : String} (h : Inside root path)
    : names root <+: names path := by
  obtain rfl | ⟨rest, rfl⟩ := h
  . exact List.prefix_refl _
  . rw [names_append_slash]
    exact List.prefix_append ..

end Path

def MountOp.target : MountOp → String
  | tmpfs m => m.path
  | proc m => m.path
  | bind m => m.dest
  | directory m => m.path
  | file m => m.path

theorem MountOp.target_mem_paths (op : MountOp) : op.target ∈ op.paths := by
  cases op with
  | bind m => exact List.mem_cons_of_mem _ List.mem_cons_self
  | _ => exact List.mem_cons_self

theorem validatePath_ok {path : String} (h : validatePath path = .ok ())
    : Path.isAbsolute path = true ∧ Path.climbs path = false := by
  unfold validatePath at h
  grind

theorem Request.validatePath_of_mem {r : Request F} (h : r.validate = .ok ()) {path : String}
    (hpath : path ∈ r.paths)
    : validatePath path = .ok () := by
  rw [validate_eq] at h
  repeat' split at h
  all_goals first | contradiction | exact (forM_eq_ok_iff _ _).mp h path hpath

section Gives

variable {σ : Type} {m : StateM σ α} {f : α → StateM σ β} {P : α → Prop} {Q : β → Prop}

def Gives (m : StateM σ α) (P : α → Prop) : Prop :=
  ∀ s, P (m s).1

theorem gives_pure {a : α} (h : P a) : Gives (pure a : StateM σ α) P :=
  fun _ => h

theorem Gives.bind (h : Gives m P) (hf : ∀ a, P a → Gives (f a) Q) : Gives (m >>= f) Q :=
  fun s => hf _ (h s) _

theorem gives_bind (hf : ∀ a, Gives (f a) Q) : Gives (m >>= f) Q :=
  fun _ => hf _ _

theorem gives_mapM {R : α → β → Prop} (l : List α) (hf : ∀ a, Gives (f a) (R a))
    : Gives (l.mapM f) fun bs =>
        (∀ b ∈ bs, ∃ a ∈ l, R a b) ∧ ∀ a ∈ l, ∃ b ∈ bs, R a b := by
  induction l with
  | nil => exact gives_pure (by simp)
  | cons a l ih =>
    rw [List.mapM_cons]
    refine (hf a).bind ?_
    intro b hb
    refine ih.bind ?_
    intro bs hbs
    apply gives_pure
    simp only [List.mem_cons, forall_eq_or_imp, exists_eq_or_imp]
    exact ⟨⟨.inl hb, fun b' hb' => .inr (hbs.1 b' hb')⟩, .inl hb, fun a' ha' => .inr (hbs.2 a' ha')⟩

end Gives

namespace CommandLine

namespace Binding

-- What stands behind the first colon, up to the next one.
def destination? (spec : String) : Option String :=
  ((split (· = ':') spec.toList).map String.ofList)[1]?

theorem destination_allow {b b' : Binding} {word : String} (h : b.allow word = .ok b')
    : b'.destination = b.destination := by
  unfold allow at h
  grind

theorem destination_foldlM {words : List String} {b b' : Binding}
    (h : words.foldlM allow b = .ok b')
    : b'.destination = b.destination := by
  induction words generalizing b with
  | nil =>
    cases h
    rfl
  | cons word words ih =>
    rw [List.foldlM_cons] at h
    cases hword : b.allow word with
    | error e =>
      rw [hword] at h
      contradiction
    | ok b'' =>
      rw [hword] at h
      rw [ih h, destination_allow hword]

theorem destination?_of_parse {spec : String} {b : Binding} (h : parse spec = .ok b)
    : destination? spec = some b.destination := by
  unfold parse at h
  unfold destination?
  split at h
  . next source destination words hwords =>
    rw [hwords, destination_foldlM h]
    rfl
  . contradiction

end Binding

open Path

variable {σ : Type} [FileSystem σ]

theorem gives_systemMounts (root directory : String)
    : Gives (systemMounts root directory : StateM σ _) fun ops =>
        ∀ op ∈ ops, op.target = root ++ directory := by
  apply gives_bind
  intro exists_
  split
  . exact gives_pure (by simp [MountOp.target])
  . exact gives_pure (by simp)

theorem gives_bindingMounts (root : String) (b : Binding)
    : Gives (bindingMounts root b : StateM σ _) fun ops =>
        ops ≠ [] ∧ ∀ op ∈ ops, op.target = root ++ b.destination := by
  apply gives_bind
  intro isDirectory
  cases isDirectory with
  | true | false => exact gives_pure (by simp [MountOp.target, Binding.mountAt])

theorem target_lastMounts {root : String} {op : MountOp} (h : op ∈ lastMounts root)
    : ∃ tail, op.target = root ++ tail ∧ isAbsolute tail := by
  simp only [lastMounts, List.mem_cons, List.not_mem_nil, or_false] at h
  obtain rfl | rfl | rfl | rfl := h
  . exact ⟨"/proc", rfl, rfl⟩
  . exact ⟨"/proc", rfl, rfl⟩
  . exact ⟨"/tmp", rfl, rfl⟩
  . exact ⟨"/tmp", rfl, rfl⟩

theorem isAbsolute_systemDirectories : ∀ directory ∈ systemDirectories, isAbsolute directory := by
  decide

structure Plan.Extends (plan : Plan) (root : String) (bindings : List Binding) : Prop where
  newRoot : plan.newRoot = some root
  target : ∀ op ∈ plan.mounts, ∃ tail, op.target = root ++ tail
    ∧ ((tail = "" ∨ isAbsolute tail) ∨ ∃ b ∈ bindings, tail = b.destination)
  binding : ∀ b ∈ bindings, ∃ op ∈ plan.mounts, op.target = root ++ b.destination

theorem gives_rootPlan? (root : String) (bindings : List Binding)
    : Gives (rootPlan? root bindings : StateM σ _) fun plan? =>
        ∀ plan, plan? = some plan → plan.Extends (Path.trimSlashes root) bindings := by
  unfold rootPlan?
  dsimp only
  split
  . exact gives_pure nofun
  . refine (gives_mapM systemDirectories (gives_systemMounts (Path.trimSlashes root))).bind ?_
    intro system hsystem
    refine (gives_mapM bindings (gives_bindingMounts (Path.trimSlashes root))).bind ?_
    intro bound hbound
    apply gives_pure
    rintro plan ⟨⟩
    constructor
    case newRoot => rfl
    case target =>
      intro op hop
      simp only [List.mem_append, List.mem_cons, List.mem_flatten] at hop
      obtain ((rfl | ⟨ops, hops, hop⟩) | ⟨ops, hops, hop⟩) | hop := hop
      . exact ⟨"", String.append_empty.symm, .inl (.inl rfl)⟩
      . obtain ⟨directory, hdirectory, htarget⟩ := hsystem.1 ops hops
        exact ⟨directory, htarget op hop,
          .inl (.inr (isAbsolute_systemDirectories directory hdirectory))⟩
      . obtain ⟨b, hb, _, htarget⟩ := hbound.1 ops hops
        exact ⟨b.destination, htarget op hop, .inr ⟨b, hb, rfl⟩⟩
      . obtain ⟨tail, htarget, htail⟩ := target_lastMounts hop
        exact ⟨tail, htarget, .inl (.inr htail)⟩
    case binding =>
      intro b hb
      obtain ⟨ops, hops, hne, htarget⟩ := hbound.2 b hb
      obtain ⟨op, hop⟩ := List.exists_mem_of_ne_nil ops hne
      refine ⟨op, ?_, htarget op hop⟩
      simp only [List.mem_append, List.mem_flatten]
      exact .inl (.inr ⟨ops, hops, hop⟩)

/-- If the mounts of a plan below a root are accepted in a request, they all stay inside the root,
as text and name by name, exactly if every destination is empty or absolute. A relative destination
is not refused but runs on from the last name of the root. -/
theorem inside_iff_destinations {F : Type} {root r : String} {specs : List String}
    {bindings : List Binding} (hspecs : specs.mapM Binding.parse = .ok bindings) {files : σ}
    {plan : Plan} (hplan : (plan? (some root) bindings files).1 = some plan)
    (hroot : plan.newRoot = some r) {request : Request F} (hmounts : request.mounts = plan.mounts)
    (hnewRoot : request.newRoot = plan.newRoot) (hvalid : request.validate = .ok ())
    : (isAbsolute r ∧ climbs r = false)
        ∧ ((∀ op ∈ plan.mounts, Inside r op.target)
            ↔ ∀ spec ∈ specs, ∀ tail, Binding.destination? spec = some tail →
                tail = "" ∨ isAbsolute tail)
        ∧ (∀ op ∈ plan.mounts, Inside r op.target →
            names r <+: names op.target ∧ climbs op.target = false)
        ∧ ∀ op ∈ plan.mounts, ¬ Inside r op.target →
            ∃ spec ∈ specs, ∃ tail,
              Binding.destination? spec = some tail
                ∧ tail ≠ ""
                ∧ isAbsolute tail = false
                ∧ op.target = r ++ tail := by
  have hextends : plan.Extends r bindings := by
    have h := gives_rootPlan? root bindings files plan hplan
    cases hroot.symm.trans h.newRoot
    exact h
  obtain ⟨hforth, hback⟩ := exists_of_mapM_eq_ok hspecs
  -- A step outside the root is at the destination of a binding, which is relative.
  have houtside (op : MountOp) (hop : op ∈ plan.mounts) (h : ¬ Inside r op.target)
      : ∃ spec ∈ specs, ∃ tail, Binding.destination? spec = some tail
          ∧ ¬ (tail = "" ∨ isAbsolute tail) ∧ op.target = r ++ tail := by
    obtain ⟨tail, htarget, htail⟩ := hextends.target op hop
    rw [htarget, inside_append_iff] at h
    obtain ⟨b, hb, rfl⟩ := htail.resolve_left h
    obtain ⟨spec, hspec, hparse⟩ := hforth b hb
    exact ⟨spec, hspec, b.destination, Binding.destination?_of_parse hparse, h, htarget⟩
  refine ⟨?_, ⟨?_, ?_⟩, ?_, ?_⟩
  . apply validatePath_ok
    apply Request.validatePath_of_mem hvalid
    simp [Request.paths, hnewRoot, hroot]
  . intro hinside spec hspec tail htail
    obtain ⟨b, hb, hparse⟩ := hback spec hspec
    cases (Binding.destination?_of_parse hparse).symm.trans htail
    obtain ⟨op, hop, htarget⟩ := hextends.binding b hb
    rw [← inside_append_iff r, ← htarget]
    exact hinside op hop
  . intro htails op hop
    apply Classical.byContradiction
    intro h
    obtain ⟨spec, hspec, tail, htail, hrelative, _⟩ := houtside op hop h
    exact hrelative (htails spec hspec tail htail)
  . intro op hop hinside
    have hpath : op.target ∈ request.paths := by
      unfold Request.paths
      rw [List.mem_append, List.mem_flatMap, hmounts]
      exact .inl ⟨op, hop, op.target_mem_paths⟩
    exact ⟨hinside.isPrefix_names, (validatePath_ok (Request.validatePath_of_mem hvalid hpath)).2⟩
  . intro op hop h
    obtain ⟨spec, hspec, tail, htail, hrelative, htarget⟩ := houtside op hop h
    rw [not_or, Bool.not_eq_true] at hrelative
    exact ⟨spec, hspec, tail, htail, hrelative.1, hrelative.2, htarget⟩

def requestFor (plan : Plan) : Request Unit :=
  { argv := ["/bin/true"], mounts := plan.mounts, newRoot := plan.newRoot }

-- What is mounted below `/r` on a host without system directories if `/dev/null` is shown at some
-- destination.
def nullPlan (destination : String) : Plan where
  mounts := [.tmpfs { path := "/r" }, .file { path := "/r" ++ destination },
      .bind { source := "/dev/null", dest := "/r" ++ destination }]
    ++ lastMounts "/r"
  newRoot := some "/r"

theorem inside_iff_destinations_of_null
    : ["/dev/null:/x"].mapM Binding.parse
          = .ok [{ source := "/dev/null", destination := "/x" }]
        ∧ (plan? (some "/r/") [{ source := "/dev/null", destination := "/x" }]
            : StateM FileTree _) {} = (some (nullPlan "/x"), {})
        ∧ (requestFor (nullPlan "/x")).validate = .ok ()
        ∧ ∀ op ∈ (nullPlan "/x").mounts, Inside "/r" op.target := by
  have hspecs : ["/dev/null:/x"].mapM Binding.parse
      = .ok [{ source := "/dev/null", destination := "/x" }] := rfl
  have hplan : (plan? (some "/r/") [{ source := "/dev/null", destination := "/x" }]
      : StateM FileTree _) {} = (some (nullPlan "/x"), {}) := rfl
  have hvalid : (requestFor (nullPlan "/x")).validate = .ok () := rfl
  refine ⟨hspecs, hplan, hvalid, ?_⟩
  obtain ⟨_, hinside, _⟩ :=
    inside_iff_destinations hspecs (congrArg Prod.fst hplan) rfl rfl rfl hvalid
  apply hinside.mpr
  intro spec hspec tail htail
  cases List.mem_singleton.mp hspec
  cases htail
  decide

-- The destination `x` is mounted at `/rx`, beside the root.
theorem not_inside_of_accepted
    : ¬ ∀ (root r : String) (specs : List String) (bindings : List Binding) (files : FileTree)
        (plan : Plan) (request : Request Unit), specs.mapM Binding.parse = .ok bindings →
        (plan? (some root) bindings files).1 = some plan → plan.newRoot = some r →
        request.mounts = plan.mounts → request.newRoot = plan.newRoot →
        request.validate = .ok () → ∀ op ∈ plan.mounts, Inside r op.target := by
  intro h
  have hinside := h "/r" "/r" ["/dev/null:x"] [{ source := "/dev/null", destination := "x" }] {}
    (nullPlan "x") (requestFor (nullPlan "x")) rfl rfl rfl rfl rfl rfl
    (.file { path := "/r" ++ "x" }) (by decide)
  change Inside "/r" ("/r" ++ "x") at hinside
  rw [inside_append_iff] at hinside
  revert hinside
  decide

end CommandLine
end Enclosure
