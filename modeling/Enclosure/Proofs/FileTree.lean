import Enclosure.Proofs.FileSystem

/-!
This module contains the theory of the entries of a file tree: the names in a directory, what taking
entries away changes of them, and that their order does not matter.
-/

namespace Enclosure

namespace FileTree

def IsLegal (name : String) : Prop :=
  Path.IsName name ∧ '\x00' ∉ name.toList ∧ name.utf8ByteSize ≤ maxName

instance (name : String) : Decidable (IsLegal name) :=
  inferInstanceAs (Decidable (_ ∧ _))

structure WellFormed (t : FileTree) : Prop where
  nodup : (t.entries.map Prod.fst).Nodup
  isLegal : ∀ q ∈ t.entries.map Prod.fst, ∀ name ∈ q, IsLegal name

def without (t : FileTree) (gone : List String → Bool) : FileTree :=
  ⟨t.entries.filter fun entry => !gone entry.1⟩

variable {t t' : FileTree} {p q : List String} {name : String} {gone : List String → Bool}

theorem erase_eq_without (t : FileTree) (p : List String)
    : t.erase p = t.without (fun q => decide (q = p)) := by
  unfold erase without
  simp

theorem without_without (t : FileTree) (gone gone' : List String → Bool)
    : (t.without gone).without gone' = t.without fun q => gone q || gone' q := by
  unfold without
  simp [List.filter_filter, Bool.and_comm]

theorem without_eq_self (h : ∀ entry ∈ t.entries, gone entry.1 = false) : t.without gone = t := by
  unfold without
  rw [List.filter_eq_self.mpr]
  simpa using h

theorem get?_without_of_not (h : gone q = false) : (t.without gone).get? q = t.get? q := by
  apply get?_filter
  simp [h]

theorem get?_without (hq : q ≠ [])
    : (t.without gone).get? q = if gone q then none else t.get? q := by
  split
  . next hgone =>
    unfold get? without
    rw [if_neg hq, List.lookup_eq_none_iff]
    intro entry hentry
    rw [List.mem_filter, Bool.not_eq_true'] at hentry
    rw [bne_iff_ne]
    rintro rfl
    rw [hgone] at hentry
    cases hentry.2
  . next hgone => exact get?_without_of_not (by simpa using hgone)

theorem isDirectory_iff : t.isDirectory p ↔ ∃ mode, t.get? p = some (.directory mode) := by
  unfold isDirectory
  cases t.get? p with
  | none => simp
  | some e =>
    cases e with
    | directory mode => simp [Entry.isDirectory]
    | file => simp [Entry.isDirectory]

theorem isDirectory_without (h : gone p = false)
    : (t.without gone).isDirectory p = t.isDirectory p := by
  unfold isDirectory
  rw [get?_without_of_not h]

theorem WellFormed.without (h : t.WellFormed) (gone : List String → Bool)
    : (t.without gone).WellFormed := by
  have hsub : ((t.without gone).entries.map Prod.fst).Sublist (t.entries.map Prod.fst) :=
    List.filter_sublist.map _
  exact ⟨h.nodup.sublist hsub, fun q hq => h.isLegal q (hsub.subset hq)⟩

def nameIn? (p q : List String) : Option String :=
  if q.dropLast = p ∧ q ≠ [] then q.getLast? else none

theorem nameIn?_eq_some_iff : nameIn? p q = some name ↔ q = p ++ [name] := by
  unfold nameIn?
  constructor
  . intro h
    split at h
    . next hq =>
      rw [← hq.1]
      obtain ⟨front, rfl⟩ := List.getLast?_eq_some_iff.mp h
      simp
    . contradiction
  . rintro rfl
    simp

theorem names_eq (t : FileTree) (p : List String)
    : t.names p = (t.entries.map Prod.fst).filterMap (nameIn? p) := by
  rw [List.filterMap_map]
  rfl

theorem mem_names_iff : name ∈ t.names p ↔ p ++ [name] ∈ t.entries.map Prod.fst := by
  rw [names_eq, List.mem_filterMap]
  simp [nameIn?_eq_some_iff]

theorem mem_names_of_get? (h : t.get? (p ++ [name]) = some e) : name ∈ t.names p := by
  rw [mem_names_iff, List.mem_map]
  unfold get? at h
  rw [if_neg (by simp)] at h
  have hsome := List.lookup_isSome_iff.mp (Option.isSome_of_eq_some h)
  obtain ⟨entry, hentry, heq⟩ := hsome
  exact ⟨entry, hentry, (eq_of_beq heq).symm⟩

theorem WellFormed.nodup_names (h : t.WellFormed) (p : List String) : (t.names p).Nodup := by
  rw [names_eq]
  apply List.Pairwise.filterMap _ _ h.nodup
  rintro q q' hne name hq _ hq' rfl
  rw [nameIn?_eq_some_iff] at hq hq'
  exact hne (hq.trans hq'.symm)

theorem WellFormed.isLegal_of_mem (h : t.WellFormed) : ∀ name ∈ t.names p, IsLegal name := by
  intro name hname
  exact h.isLegal _ (mem_names_iff.mp hname) name (by simp)

theorem names_without (t : FileTree) (gone : List String → Bool) (p : List String)
    : (t.without gone).names p = (t.names p).filter fun name => !gone (p ++ [name]) := by
  have hkeys : (t.without gone).entries.map Prod.fst
      = (t.entries.map Prod.fst).filter fun q => !gone q := by
    rw [List.filter_map]
    rfl
  rw [names_eq, names_eq, hkeys, List.filterMap_filter, List.filter_filterMap]
  congr 1
  funext q
  cases hname : nameIn? p q with
  | none => simp
  | some name =>
    rw [nameIn?_eq_some_iff.mp hname]
    cases hgone : gone (p ++ [name]) with
    | false => simp [Option.filter, hgone]
    | true => simp [Option.filter, hgone]

theorem names_without_of_not (h : ∀ name, gone (p ++ [name]) = false)
    : (t.without gone).names p = t.names p := by
  rw [names_without]
  simp [h]

section Order

variable {u : FileTree} (h : u.entries.Perm t.entries)
include h

theorem WellFormed.of_perm (hvalid : t.WellFormed) : u.WellFormed :=
  have hkeys := h.map Prod.fst
  ⟨hkeys.nodup_iff.mpr hvalid.nodup, fun q hq => hvalid.isLegal q (hkeys.mem_iff.mp hq)⟩

theorem get?_of_perm (hvalid : t.WellFormed) : u.get? = t.get? := by
  funext q
  unfold get?
  rw [lookup_of_perm h (WellFormed.of_perm h hvalid).nodup]

theorem names_of_perm (p : List String) : (u.names p).Perm (t.names p) := by
  rw [names_eq, names_eq]
  exact (h.map Prod.fst).filterMap _

end Order

end FileTree

end Enclosure
