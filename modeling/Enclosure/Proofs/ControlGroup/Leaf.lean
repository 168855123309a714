import Enclosure.ControlGroup.Leaves
import Enclosure.Proofs.ControlGroup.Effect
import Enclosure.Proofs.FileSystem
import Enclosure.Proofs.Text.Number

/-!
This module contains the theory of leaves: whatever is done with a leaf changes nothing outside its
directory, and the directories of two leaves have nothing in common.
-/

namespace Enclosure

open LawfulFileSystem

variable {σ : Type} [FileSystem σ] [LawfulFileSystem σ]

-- Nothing has changed but what is at a place or below it.
def ChangesBelow (p : List String) (s s' : σ) : Prop :=
  ∀ q, ¬ p <+: q → view s' q = view s q

namespace ChangesBelow

variable {p : List String}

theorem refl (s : σ) : ChangesBelow p s s :=
  fun _ _ => rfl

theorem trans (s t u : σ) (h : ChangesBelow p s t) (h' : ChangesBelow p t u)
    : ChangesBelow p s u := by
  intro q hq
  rw [h' q hq, h q hq]

theorem of_view {s s' : σ} (h : view s' = view s) : ChangesBelow p s s' := by
  intro q _
  rw [h]

theorem read (path : String) : Keeps (ChangesBelow p) (FileSystem.read path : StateM σ _) :=
  fun s => of_view (read_view path s)

end ChangesBelow

namespace ControlGroup

namespace Leaf

variable {l : Leaf}

abbrev Confined (l : Leaf) : σ → σ → Prop :=
  ChangesBelow (place σ l.path)

theorem write_confined {name : String} (h : Path.IsName name) (content : String)
    : Keeps l.Confined (FileSystem.write (l.file name) content : StateM σ _) := by
  intro s q hq
  apply write_frame
  unfold file
  rw [place_join _ _ h, List.dropLast_concat]
  exact hq

theorem writeFile_confined {name : String} (h : Path.IsName name) (content : String)
    : Keeps l.Confined (writeFile (l.file name) content : GroupM σ Unit).run :=
  keeps_named _ _ (write_confined h content)

theorem writeOptional_confined {name : String} (h : Path.IsName name) (content : String)
    : Keeps l.Confined (writeOptional (l.file name) content : GroupM σ Unit).run :=
  keeps_writeOptional ChangesBelow.refl ChangesBelow.trans (write_confined h content)

theorem readFile_confined (path : String)
    : Keeps l.Confined (readFile path : GroupM σ String).run :=
  keeps_named _ _ (ChangesBelow.read path)

theorem applyLimits_confined (limits : GroupLimits)
    : Keeps l.Confined (l.applyLimits limits : GroupM σ Unit).run := by
  unfold applyLimits
  refine .group_bind ChangesBelow.trans (writeFile_confined (by decide) _) fun _ => ?_
  refine .group_bind ChangesBelow.trans (writeFile_confined (by decide) _) fun _ => ?_
  have hlast : Keeps l.Confined
      (writeOptional (l.file "cgroup.pressure") "0" : GroupM σ Unit).run :=
    writeOptional_confined (by decide) _
  dsimp only
  split
  . refine .group_bind ChangesBelow.trans (writeOptional_confined (by decide) _) fun _ => ?_
    split
    . exact .group_bind ChangesBelow.trans (writeFile_confined (by decide) _) fun _ => hlast
    . exact hlast
  . split
    . exact .group_bind ChangesBelow.trans (writeFile_confined (by decide) _) fun _ => hlast
    . exact hlast

theorem kill_confined : Keeps l.Confined (l.kill : GroupM σ Unit).run :=
  writeFile_confined (by decide) _

theorem cpuTimes_confined : Keeps l.Confined (l.cpuTimes : GroupM σ CpuTime).run := by
  unfold cpuTimes
  refine .group_bind ChangesBelow.trans (readFile_confined _) fun content => ?_
  cases parseCpuStat content with
  | ok => exact ChangesBelow.refl
  | error => exact ChangesBelow.refl

theorem peakMemory_confined : Keeps l.Confined (l.peakMemory : GroupM σ UInt64).run := by
  have hparse (file content : String)
      : Keeps l.Confined (liftM (parseNumber file content) : GroupM σ UInt64).run := by
    cases parseNumber file content with
    | ok => exact ChangesBelow.refl
    | error => exact ChangesBelow.refl
  unfold peakMemory
  refine .run_bind ChangesBelow.trans (ChangesBelow.read _) fun result => ?_
  cases result with
  | ok content => exact hparse _ _
  | error e =>
    dsimp only
    split
    . exact .group_bind ChangesBelow.trans (readFile_confined _) fun content => hparse _ _
    . exact ChangesBelow.refl

theorem openDirectory_confined : Keeps l.Confined (l.openDirectory : GroupM σ Unit).run :=
  keeps_named _ _ fun s => .of_view (openDirectory_view _ s)

theorem openCpuStat_confined : Keeps l.Confined (l.openCpuStat : GroupM σ Unit).run :=
  keeps_named _ _ fun s => .of_view (openFile_view _ s)

omit [LawfulFileSystem σ] in
theorem tryRemove_of_removed (h : l.removed = true) (s : σ)
    : l.tryRemove s = ((.removed, l), s) := by
  unfold tryRemove
  rw [if_pos h]
  rfl

omit [LawfulFileSystem σ] in
theorem tryRemove_cases (l : Leaf) (s : σ)
    : (l.tryRemove s).1 = (.removed, { l with removed := true })
        ∨ (l.tryRemove s).1.1 ≠ .removed ∧ (l.tryRemove s).1.2 = l := by
  cases hremoved : l.removed with
  | true =>
    rw [tryRemove_of_removed hremoved, ← hremoved]
    exact .inl rfl
  | false =>
    unfold tryRemove
    rw [hremoved, if_neg (by decide), StateM.bind_apply]
    rcases (FileSystem.removeDirectory l.path : StateM σ _) s with ⟨e | _, s'⟩
    . dsimp only
      split
      . exact .inr ⟨nofun, rfl⟩
      . exact .inr ⟨nofun, rfl⟩
    . exact .inl rfl

theorem tryRemove_confined : Keeps l.Confined (l.tryRemove : StateM σ _) := by
  cases hremoved : l.removed with
  | true =>
    intro s
    rw [tryRemove_of_removed hremoved]
    exact ChangesBelow.refl s
  | false =>
    unfold tryRemove
    rw [hremoved, if_neg (by decide)]
    refine .bind ChangesBelow.trans (fun s q hq => removeDirectory_frame l.path s q hq) fun r => ?_
    cases r with
    | ok => exact ChangesBelow.refl
    | error e =>
      dsimp only
      split
      . exact ChangesBelow.refl
      . exact ChangesBelow.refl

omit [LawfulFileSystem σ] in
theorem path_tryRemove (l : Leaf) (s : σ) : (l.tryRemove s).1.2.path = l.path := by
  cases tryRemove_cases l s with
  | inl h => rw [h]
  | inr h => rw [h.2]

theorem removeWithin_confined (n : Nat) : Keeps l.Confined (l.removeWithin n : StateM σ Unit) := by
  induction n generalizing l with
  | zero => exact ChangesBelow.refl
  | succ n ih =>
    intro s
    have hpath := path_tryRemove l s
    have hframe := tryRemove_confined (l := l) s
    unfold removeWithin
    rw [StateM.bind_apply]
    rcases hrun : (l.tryRemove : StateM σ _) s with ⟨⟨result, l'⟩, s'⟩
    rw [hrun] at hpath hframe
    cases result with
    | busy =>
      have hrest := ih (l := l') s'
      unfold Confined at hrest
      rw [show l'.path = l.path from hpath] at hrest
      exact ChangesBelow.trans _ _ _ hframe hrest
    | removed => exact hframe
    | fault => exact hframe

omit [LawfulFileSystem σ] in
theorem drop_of_removed (h : l.removed = true) (s : σ) : l.drop s = ((), s) := by
  unfold drop
  rw [h]
  rfl

theorem drop_confined : Keeps l.Confined (l.drop : StateM σ Unit) := by
  cases hremoved : l.removed with
  | true =>
    intro s
    rw [drop_of_removed hremoved]
    exact ChangesBelow.refl s
  | false =>
    unfold drop
    rw [hremoved]
    exact .bind ChangesBelow.trans kill_confined fun _ => removeWithin_confined 100

theorem perform_confined (call : LeafCall)
    : Keeps l.Confined (l.perform call : StateM σ _) := by
  cases call with
  | openDirectory =>
    exact .bind ChangesBelow.trans openDirectory_confined fun _ => ChangesBelow.refl
  | openCpuStat => exact .bind ChangesBelow.trans openCpuStat_confined fun _ => ChangesBelow.refl
  | kill => exact .bind ChangesBelow.trans kill_confined fun _ => ChangesBelow.refl
  | cpuTimes => exact .bind ChangesBelow.trans cpuTimes_confined fun _ => ChangesBelow.refl
  | peakMemory => exact .bind ChangesBelow.trans peakMemory_confined fun _ => ChangesBelow.refl
  | tryRemove => exact .bind ChangesBelow.trans tryRemove_confined fun _ => ChangesBelow.refl
  | drop => exact .bind ChangesBelow.trans drop_confined fun _ => ChangesBelow.refl

omit [LawfulFileSystem σ] in
theorem perform_of_removed (h : l.removed = true) (s : σ)
    : l.perform .tryRemove s = ((.removal .removed, some l), s)
        ∧ l.perform .drop s = ((.dropped, none), s) := by
  simp only [perform]
  rw [StateM.bind_apply, StateM.bind_apply, tryRemove_of_removed h, drop_of_removed h]
  exact ⟨rfl, rfl⟩

omit [LawfulFileSystem σ] in
theorem isSome_perform {left : Option Leaf} {call : LeafCall} {reply : TreeReply} {s s' : σ}
    (h : l.perform call s = ((reply, left), s')) (hcall : call ≠ .drop)
    : left.isSome := by
  cases call with
  | drop => contradiction
  | _ =>
    cases h
    rfl

omit [LawfulFileSystem σ] in
theorem perform_leaf {l' : Leaf} {call : LeafCall} {reply : TreeReply} {s s' : σ}
    (h : l.perform call s = ((reply, some l'), s'))
    : l'.path = l.path ∧ (l.removed = true → l'.removed = true) := by
  have h := congrArg (·.1.2) h
  cases call with
  | tryRemove =>
    have hl' : l' = (l.tryRemove s).1.2 := (Option.some.inj h).symm
    cases tryRemove_cases l s with
    | inl hremoved =>
      rw [hl', hremoved]
      exact ⟨rfl, fun _ => rfl⟩
    | inr hkept =>
      rw [hl', hkept.2]
      exact ⟨rfl, id⟩
  | drop => contradiction
  | _ =>
    cases h
    exact ⟨rfl, id⟩

end Leaf

namespace Tree

variable (t : Tree)

def leafName (n : UInt64) : String :=
  s!"sandbox-{n}"

theorem toList_leafName (n : UInt64)
    : (leafName n).toList = "sandbox-".toList ++ Nat.toDigits 10 n.toNat := by
  unfold leafName
  rw [String.toList_append, ← Text.toList_toString_word]
  rfl

theorem isName_leafName (n : UInt64) : Path.IsName (leafName n) := by
  unfold Path.IsName
  rw [toList_leafName]
  constructor
  . simp
  . intro hslash
    rw [List.mem_append] at hslash
    cases hslash with
    | inl hslash => exact absurd hslash (by decide)
    | inr hslash => exact absurd (Text.isDigit_toDigits _ _ hslash) (by decide)

theorem eq_of_leafName_eq {m n : UInt64} (h : leafName m = leafName n) : m = n := by
  have hdigits := congrArg String.toList h
  rw [toList_leafName, toList_leafName, List.append_cancel_left_eq] at hdigits
  have hnumbers := congrArg Text.natural? hdigits
  rw [Text.natural?_toDigits, Text.natural?_toDigits, Option.some.injEq] at hnumbers
  exact UInt64.toNat_inj.mp hnumbers

theorem place_leafPath (n : UInt64) : place σ (t.leafPath n) = place σ t.base ++ [leafName n] :=
  place_join _ _ (isName_leafName n)

theorem eq_of_prefix_of_prefix {m n : UInt64} {q : List String}
    (hm : place σ (t.leafPath m) <+: q) (hn : place σ (t.leafPath n) <+: q)
    : m = n := by
  rw [place_leafPath] at hm hn
  have hprefix := List.prefix_of_prefix_length_le hm hn (by simp)
  apply eq_of_leafName_eq
  simpa using hprefix

theorem drop_confined : Keeps (ChangesBelow (place σ t.initPath)) (t.drop : StateM σ Unit) :=
  fun s => removeDirectory_frame t.initPath s

theorem view_leaf_of_drop (n : UInt64) (s : σ) {q : List String}
    (hq : place σ (t.leafPath n) <+: q)
    : view (t.drop s).2 q = view s q := by
  apply t.drop_confined s
  intro hinit
  rw [place_leafPath] at hq
  rw [initPath, place_join _ _ (by decide)] at hinit
  have hprefix := List.prefix_of_prefix_length_le hinit hq (by simp)
  have hname : "pid1" = leafName n := by simpa using hprefix
  have hlist := congrArg String.toList hname
  rw [toList_leafName] at hlist
  simp at hlist

-- What asking for a leaf can come to: its directory cannot be made, or it is a new one and the
-- leaf is handed out or given up.
inductive Creation (path : String) (s s' : σ) : Except GroupFault Leaf → Prop where
  | refused (f : GroupFault) : view s' = view s → Creation path s s' (.error f)
  | abandoned (f : GroupFault) : view s (place σ path) = none →
      ChangesBelow (place σ path) s s' → Creation path s s' (.error f)
  | made : view s (place σ path) = none →
      ChangesBelow (place σ path) s s' → Creation path s s' (.ok { path })

theorem Creation.changesBelow {path : String} {s s' : σ} {result : Except GroupFault Leaf}
    (h : Creation path s s' result)
    : ChangesBelow (place σ path) s s' := by
  cases h with
  | refused _ hview => exact .of_view hview
  | abandoned _ _ hchanges => exact hchanges
  | made _ hchanges => exact hchanges

theorem createLeaf_cases (limits : GroupLimits) (s : σ)
    : ∃ result s',
        t.createLeaf limits s = ((result, { t with nextLeaf := t.nextLeaf + 1 }), s')
          ∧ Creation (t.leafPath t.nextLeaf) s s' result := by
  have hnew := makeDirectory_new (t.leafPath t.nextLeaf) 0o777 s
  have herror := makeDirectory_error (t.leafPath t.nextLeaf) 0o777 s
  have hmade : ChangesBelow _ s _ := makeDirectory_frame (t.leafPath t.nextLeaf) 0o777 s
  unfold createLeaf
  rw [StateM.bind_apply]
  rcases hrun : (FileSystem.makeDirectory (t.leafPath t.nextLeaf) 0o777 : StateM σ _) s
    with ⟨e | _, s₁⟩
  . rw [hrun] at herror
    exact ⟨_, s₁, rfl, .refused _ (herror e rfl)⟩
  . rw [hrun] at hnew hmade
    have hlimits := Leaf.applyLimits_confined (l := { path := t.leafPath t.nextLeaf }) limits s₁
    dsimp only
    rw [StateM.bind_apply]
    rcases happly : (Leaf.applyLimits { path := t.leafPath t.nextLeaf } limits : GroupM σ Unit).run
      s₁ with ⟨f | _, s₂⟩
    . rw [happly] at hlimits
      have hdrop := Leaf.drop_confined (l := { path := t.leafPath t.nextLeaf }) s₂
      refine ⟨_, _, rfl, .abandoned f (hnew rfl) ?_⟩
      exact ChangesBelow.trans _ _ _ (ChangesBelow.trans _ _ _ hmade hlimits) hdrop
    . rw [happly] at hlimits
      exact ⟨_, s₂, rfl, .made (hnew rfl) (ChangesBelow.trans _ _ _ hmade hlimits)⟩

end Tree

end ControlGroup

end Enclosure
