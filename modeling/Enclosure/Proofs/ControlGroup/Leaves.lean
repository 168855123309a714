import Enclosure.Proofs.ControlGroup.Leaf

/-!
This module contains what becomes of the leaves of one tree while they are created, used and dropped
in any order. Every call keeps to the directory of its own leaf, which no other leaf has had, and a
leaf that has been removed is left alone.
-/

namespace Enclosure.ControlGroup

open LawfulFileSystem

def leafDirectory (base : String) (n : UInt64) : String :=
  Tree.leafPath { base } n

namespace TreeCall

def creates : TreeCall → Bool
  | create _ => true
  | on .. => false

end TreeCall

namespace LeafTurn

def newNumber? (t : LeafTurn σ) : Option UInt64 :=
  if t.call.creates then t.number else none

end LeafTurn

namespace Leaves

variable {σ : Type} [FileSystem σ]

theorem turn_of_asked {l : Leaves σ} {i : Nat} {n : UInt64} {leaf : Leaf}
    (h : l.asked[i]? = some (n, some leaf)) (c : LeafCall)
    : l.turn (.on i c)
        = { call := .on i c, number := some n, reply := (leaf.perform c l.files).1.1, before := l
            after := { l with asked := l.asked.set i (n, (leaf.perform c l.files).1.2)
                              files := (leaf.perform c l.files).2 } } := by
  simp only [turn, h]
  rfl

theorem turn_cases (l : Leaves σ) (call : TreeCall)
    : (∃ limits result tree s',
          call = .create limits ∧ l.tree.createLeaf limits l.files = ((result, tree), s')
            ∧ l.turn call
              = { call, number := some l.tree.nextLeaf, reply := .created result, before := l
                  after := { tree, asked := l.asked ++ [(l.tree.nextLeaf, result.toOption)],
                             files := s' } })
        ∨ (∃ i c n leaf reply left s',
            call = .on i c ∧ l.asked[i]? = some (n, some leaf)
              ∧ leaf.perform c l.files = ((reply, left), s')
              ∧ l.turn call
                = { call, number := some n, reply, before := l
                    after := { l with asked := l.asked.set i (n, left), files := s' } })
        ∨ ∃ i c,
            call = .on i c ∧ (∀ n leaf, l.asked[i]? ≠ some (n, some leaf))
              ∧ l.turn call
                = { call, number := l.asked[i]?.map Prod.fst, reply := .noLeaf, before := l
                    after := l } := by
  cases call with
  | create limits => exact .inl ⟨limits, _, _, _, rfl, rfl, rfl⟩
  | on i c =>
    cases hasked : l.asked[i]? with
    | none =>
      refine .inr (.inr ⟨i, c, rfl, ?_, ?_⟩)
      . simp [hasked]
      . simp [turn, hasked]
    | some entry =>
      obtain ⟨n, leaf⟩ := entry
      cases leaf with
      | none =>
        refine .inr (.inr ⟨i, c, rfl, ?_, ?_⟩)
        . simp [hasked]
        . simp [turn, hasked]
      | some leaf =>
        rcases hperform : leaf.perform c l.files with ⟨⟨reply, left⟩, s'⟩
        refine .inr (.inl ⟨i, c, n, leaf, reply, left, s', rfl, hasked, hperform, ?_⟩)
        rw [turn_of_asked hasked, hperform]

theorem asked_turn {l : Leaves σ} {i : Nat} {n : UInt64} {left : Option Leaf}
    (h : l.asked[i]? = some (n, left)) (call : TreeCall)
    : ∃ left',
        (l.turn call).after.asked[i]? = some (n, left')
          ∧ (∀ leaf' ∈ left', ∃ leaf ∈ left,
              leaf'.path = leaf.path ∧ (leaf.removed = true → leaf'.removed = true))
          ∧ (left.isSome → call ≠ .on i .drop → left'.isSome) := by
  have hlength := (List.getElem?_eq_some_iff.mp h).1
  have hsame (leaf) (hleaf : leaf ∈ left) : ∃ leaf' ∈ left,
      leaf.path = leaf'.path ∧ (leaf'.removed = true → leaf.removed = true) :=
    ⟨leaf, hleaf, rfl, id⟩
  rcases turn_cases l call with
    ⟨_, _, _, _, rfl, _, hturn⟩ | ⟨j, c, m, leaf, reply, left', s', rfl, hasked, hperform, hturn⟩
      | ⟨_, _, rfl, _, hturn⟩
  . refine ⟨left, ?_, hsame, fun hsome _ => hsome⟩
    rw [hturn, List.getElem?_append_left hlength, h]
  . rw [hturn]
    by_cases hj : j = i
    . subst hj
      obtain ⟨rfl, rfl⟩ : n = m ∧ left = some leaf := by simpa [h] using hasked
      refine ⟨left', List.getElem?_set_self hlength, ?_, ?_⟩
      . intro leaf' hleaf'
        obtain rfl : left' = some leaf' := hleaf'
        exact ⟨leaf, rfl, Leaf.perform_leaf hperform⟩
      . intro _ hcall
        apply Leaf.isSome_perform hperform
        rintro rfl
        exact hcall rfl
    . exact ⟨left, (List.getElem?_set_ne hj).trans h, hsame, fun hsome _ => hsome⟩
  . rw [hturn]
    exact ⟨left, h, hsame, fun hsome _ => hsome⟩

theorem numbers_turn (l : Leaves σ) (call : TreeCall)
    : (l.turn call).after.asked.map Prod.fst
        = l.asked.map Prod.fst ++ (l.turn call).newNumber?.toList := by
  rcases turn_cases l call with
    ⟨_, _, _, _, rfl, _, h⟩ | ⟨i, _, n, leaf, _, _, _, rfl, hasked, _, h⟩ | ⟨_, _, rfl, _, h⟩
  . simp [h, LeafTurn.newNumber?, TreeCall.creates]
  . rw [h]
    have hnumber : (l.asked.map Prod.fst).set i n = l.asked.map Prod.fst := by
      have hlength : i < (l.asked.map Prod.fst).length := by
        simpa using (List.getElem?_eq_some_iff.mp hasked).1
      have hsame : (l.asked.map Prod.fst)[i] = n := by
        simp [(List.getElem?_eq_some_iff.mp hasked).2]
      rw [← hsame, List.set_getElem_self]
    simp [List.map_set, LeafTurn.newNumber?, TreeCall.creates, hnumber]
  . simp [h, LeafTurn.newNumber?, TreeCall.creates]

def after (l : Leaves σ) : List TreeCall → Leaves σ
  | [] => l
  | call :: calls => after (l.turn call).after calls

theorem numbers_run (l : Leaves σ) (calls : List TreeCall)
    : (l.after calls).asked.map Prod.fst
        = l.asked.map Prod.fst ++ (l.run calls).filterMap LeafTurn.newNumber? := by
  induction calls generalizing l with
  | nil => simp [after, run]
  | cons call calls ih =>
    rw [after, run, ih, numbers_turn, List.append_assoc]
    cases hnew : (l.turn call).newNumber? with
    | none => simp [hnew]
    | some n => simp [hnew]

theorem number_turn_on (l : Leaves σ) (i : Nat) (c : LeafCall)
    : (l.turn (.on i c)).number = (l.asked.map Prod.fst)[i]? := by
  rcases turn_cases l (.on i c) with
    ⟨_, _, _, _, hcall, _⟩ | ⟨j, d, n, leaf, _, _, _, hcall, hasked, _, hturn⟩
      | ⟨_, _, hcall, _, hturn⟩
  . contradiction
  . obtain ⟨rfl, -⟩ := TreeCall.on.inj hcall
    rw [hturn, List.getElem?_map, hasked]
    rfl
  . obtain ⟨rfl, -⟩ := TreeCall.on.inj hcall
    rw [hturn, List.getElem?_map]

theorem call_turn (l : Leaves σ) (call : TreeCall) : (l.turn call).call = call := by
  rcases turn_cases l call with
    ⟨_, _, _, _, _, _, h⟩ | ⟨_, _, _, _, _, _, _, _, _, _, h⟩ | ⟨_, _, _, _, h⟩
  . rw [h]
  . rw [h]
  . rw [h]

theorem before_turn (l : Leaves σ) (call : TreeCall) : (l.turn call).before = l := by
  rcases turn_cases l call with
    ⟨_, _, _, _, _, _, h⟩ | ⟨_, _, _, _, _, _, _, _, _, _, h⟩ | ⟨_, _, _, _, h⟩
  . rw [h]
  . rw [h]
  . rw [h]

theorem run_eq_append {l : Leaves σ} {calls : List TreeCall} {front back : List (LeafTurn σ)}
    {t : LeafTurn σ} (h : l.run calls = front ++ t :: back)
    : ∃ before call rest,
        calls = before ++ call :: rest
          ∧ front = l.run before
          ∧ t = (l.after before).turn call
          ∧ back = t.after.run rest := by
  induction front generalizing l calls with
  | nil =>
    cases calls with
    | nil => contradiction
    | cons call calls =>
      obtain ⟨rfl, rfl⟩ := List.cons.inj h
      exact ⟨[], call, calls, rfl, rfl, rfl, rfl⟩
  | cons u front ih =>
    cases calls with
    | nil => contradiction
    | cons call calls =>
      obtain ⟨rfl, hrest⟩ := List.cons.inj h
      obtain ⟨before, call', rest, rfl, rfl, hturn, hback⟩ := ih hrest
      exact ⟨call :: before, call', rest, rfl, rfl, hturn, hback⟩

-- Nothing is left to be done about a leaf, since it has been removed or is not there.
def Settled (l : Leaves σ) (i : Nat) : Prop :=
  ∃ n left, l.asked[i]? = some (n, left) ∧ ∀ leaf ∈ left, leaf.removed = true

def Held (l : Leaves σ) (i : Nat) : Prop :=
  ∃ n leaf, l.asked[i]? = some (n, some leaf)

variable {l : Leaves σ} {i : Nat}

theorem Settled.turn (h : l.Settled i) (call : TreeCall) : (l.turn call).after.Settled i := by
  obtain ⟨n, left, hasked, hremoved⟩ := h
  obtain ⟨left', hasked', hleft', -⟩ := asked_turn hasked call
  refine ⟨n, left', hasked', ?_⟩
  intro leaf' hleaf'
  obtain ⟨leaf, hleaf, -, hkept⟩ := hleft' leaf' hleaf'
  exact hkept (hremoved leaf hleaf)

theorem Settled.after (h : l.Settled i) (calls : List TreeCall) : (l.after calls).Settled i := by
  induction calls generalizing l with
  | nil => exact h
  | cons call calls ih => exact ih (h.turn call)

theorem Held.turn (h : l.Held i) {call : TreeCall} (hcall : call ≠ .on i .drop)
    : (l.turn call).after.Held i := by
  obtain ⟨n, leaf, hasked⟩ := h
  obtain ⟨left', hasked', -, hsome⟩ := asked_turn hasked call
  obtain ⟨leaf', rfl⟩ := Option.isSome_iff_exists.mp (hsome rfl hcall)
  exact ⟨n, leaf', hasked'⟩

theorem Held.after (h : l.Held i) {calls : List TreeCall}
    (hcalls : ∀ t ∈ l.run calls, t.call ≠ .on i .drop)
    : (l.after calls).Held i := by
  induction calls generalizing l with
  | nil => exact h
  | cons call calls ih =>
    rw [run, List.forall_mem_cons, call_turn] at hcalls
    exact ih (h.turn hcalls.1) hcalls.2

theorem settled_and_held_of_removed (h : (l.turn (.on i .tryRemove)).reply = .removal .removed)
    : (l.turn (.on i .tryRemove)).after.Settled i
        ∧ (l.turn (.on i .tryRemove)).after.Held i := by
  rcases turn_cases l (.on i .tryRemove) with
    ⟨_, _, _, _, hcall, _⟩ | ⟨j, c, n, leaf, _, _, _, hcall, hasked, _, _⟩ | ⟨_, _, _, _, hturn⟩
  . contradiction
  . obtain ⟨rfl, rfl⟩ := TreeCall.on.inj hcall
    have hlength := (List.getElem?_eq_some_iff.mp hasked).1
    rw [turn_of_asked hasked] at h ⊢
    have hremoved : (leaf.tryRemove l.files).1.1 = .removed := TreeReply.removal.inj h
    have hleft : (leaf.perform .tryRemove l.files).1.2 = some { leaf with removed := true } := by
      cases leaf.tryRemove_cases l.files with
      | inl hcase => exact congrArg some (congrArg Prod.snd hcase)
      | inr hcase => exact absurd hremoved hcase.1
    rw [hleft]
    constructor
    . refine ⟨n, _, List.getElem?_set_self hlength, ?_⟩
      rintro _ ⟨⟩
      rfl
    . exact ⟨n, _, List.getElem?_set_self hlength⟩
  . rw [hturn] at h
    contradiction

theorem files_turn_of_settled (h : l.Settled i) {c : LeafCall} (hc : c = .tryRemove ∨ c = .drop)
    : (l.turn (.on i c)).after.files = l.files := by
  obtain ⟨n, left, hasked, hremoved⟩ := h
  cases left with
  | none => simp [turn, hasked]
  | some leaf =>
    have hperform := Leaf.perform_of_removed (hremoved leaf rfl) l.files
    rw [turn_of_asked hasked]
    rcases hc with rfl | rfl
    . rw [hperform.1]
    . rw [hperform.2]

theorem reply_turn_of_settled (h : l.Settled i) (hheld : l.Held i)
    : (l.turn (.on i .tryRemove)).reply = .removal .removed := by
  obtain ⟨n, left, hasked, hremoved⟩ := h
  obtain ⟨_, leaf, hleaf⟩ := hheld
  obtain ⟨rfl, rfl⟩ : n = _ ∧ left = some leaf := by simpa [hasked] using hleaf
  rw [turn_of_asked hasked, (Leaf.perform_of_removed (hremoved leaf rfl) l.files).1]

theorem left_alone_of_removed {calls : List TreeCall} {front middle back : List (LeafTurn σ)}
    {t u : LeafTurn σ} (hturns : l.run calls = front ++ t :: (middle ++ u :: back))
    (hcall : t.call = .on i .tryRemove) (hreply : t.reply = .removal .removed)
    : (u.call = .on i .tryRemove ∨ u.call = .on i .drop → u.after.files = u.before.files)
        ∧ (u.call = .on i .tryRemove → (∀ v ∈ middle, v.call ≠ .on i .drop) →
            u.reply = .removal .removed) := by
  obtain ⟨before, call, rest, rfl, -, rfl, hrest⟩ := run_eq_append hturns
  obtain ⟨between, call', rest', rfl, rfl, rfl, -⟩ := run_eq_append hrest.symm
  rw [call_turn] at hcall
  subst hcall
  -- From the removal on the leaf is settled, and it is there until it is dropped.
  obtain ⟨hsettled, hheld⟩ := settled_and_held_of_removed hreply
  have hsettled := hsettled.after between
  rw [call_turn, before_turn]
  constructor
  . rintro (rfl | rfl)
    . exact files_turn_of_settled hsettled (.inl rfl)
    . exact files_turn_of_settled hsettled (.inr rfl)
  . rintro rfl hkept
    exact reply_turn_of_settled hsettled (hheld.after hkept)

structure Sound (base : String) (l : Leaves σ) : Prop where
  base_eq : l.tree.base = base
  next : l.tree.nextLeaf.toNat = l.asked.length
  entry : ∀ (i : Nat) n left, l.asked[i]? = some (n, left) →
    n.toNat = i ∧ ∀ leaf ∈ left, leaf.path = leafDirectory base n

variable {base : String}

omit [FileSystem σ] in
theorem sound_start (base : String) (files : σ) : Sound base { tree := { base }, files } where
  base_eq := rfl
  next := rfl
  entry := by simp

omit [FileSystem σ] in
theorem Sound.leafPath_eq (h : Sound base l) (n : UInt64)
    : l.tree.leafPath n = leafDirectory base n := by
  unfold leafDirectory Tree.leafPath
  rw [h.base_eq]

theorem length_asked_turn (l : Leaves σ) (call : TreeCall)
    : (l.turn call).after.asked.length = l.asked.length + if call.creates then 1 else 0 := by
  rcases turn_cases l call with
    ⟨_, _, _, _, rfl, _, h⟩ | ⟨_, _, _, _, _, _, _, rfl, _, _, h⟩ | ⟨_, _, rfl, _, h⟩
  . simp [h, TreeCall.creates]
  . simp [h, TreeCall.creates]
  . simp [h, TreeCall.creates]

omit [FileSystem σ] in
theorem Sound.pairwise (h : Sound base l) : (l.asked.map Prod.fst).Pairwise (· < ·) := by
  have hnumber (i : Nat) (hi : i < l.asked.length) : l.asked[i].1.toNat = i :=
    (h.entry i _ _ (List.getElem?_eq_getElem hi)).1
  rw [List.pairwise_iff_getElem]
  intro i j hi hj hlt
  rw [List.length_map] at hi hj
  rw [List.getElem_map, List.getElem_map, UInt64.lt_iff_toNat_lt, hnumber i hi, hnumber j hj]
  exact hlt

variable [LawfulFileSystem σ]

theorem turn_create (l : Leaves σ) (limits : GroupLimits)
    : ∃ result s',
        l.turn (.create limits)
          = { call := .create limits, number := some l.tree.nextLeaf, reply := .created result
              before := l
              after := { tree := { l.tree with nextLeaf := l.tree.nextLeaf + 1 }
                         asked := l.asked ++ [(l.tree.nextLeaf, result.toOption)], files := s' } }
          ∧ Tree.Creation (l.tree.leafPath l.tree.nextLeaf) l.files s' result := by
  obtain ⟨result, s', hcreate, hresult⟩ := l.tree.createLeaf_cases limits l.files
  refine ⟨result, s', ?_, hresult⟩
  simp only [turn, hcreate]

theorem Sound.turn_create (h : Sound base l) {limits : GroupLimits}
    (hcount : l.asked.length + 1 < UInt64.size)
    : Sound base (l.turn (.create limits)).after := by
  obtain ⟨result, s', hturn, hresult⟩ := l.turn_create limits
  rw [hturn]
  constructor
  . exact h.base_eq
  . rw [List.length_append, List.length_singleton, UInt64.toNat_add, h.next]
    exact Nat.mod_eq_of_lt hcount
  . intro i n left hentry
    rw [List.getElem?_append] at hentry
    split at hentry
    . exact h.entry i n left hentry
    . next hlength =>
      obtain ⟨hlast, rfl, rfl⟩ : i - l.asked.length = 0 ∧ l.tree.nextLeaf = n ∧ _ = left := by
        simpa [List.getElem?_singleton] using hentry
      obtain rfl : i = l.asked.length := by omega
      refine ⟨h.next, ?_⟩
      intro leaf hleaf
      cases hresult with
      | refused => contradiction
      | abandoned => contradiction
      | made =>
        cases hleaf
        exact h.leafPath_eq _

theorem Sound.turn (h : Sound base l) {call : TreeCall}
    (hcount : l.asked.length + (if call.creates then 1 else 0) < UInt64.size)
    : Sound base (l.turn call).after := by
  cases call with
  | create limits => exact h.turn_create hcount
  | on i c =>
    have hlength := length_asked_turn l (.on i c)
    have htree : (l.turn (.on i c)).after.tree = l.tree := by
      rcases turn_cases l (.on i c) with
        ⟨_, _, _, _, hcall, _⟩ | ⟨_, _, _, _, _, _, _, _, _, _, hturn⟩ | ⟨_, _, _, _, hturn⟩
      . contradiction
      . rw [hturn]
      . rw [hturn]
    constructor
    . rw [htree, h.base_eq]
    . rw [htree, hlength, h.next]
      rfl
    . intro j n left hentry
      -- A call on a leaf adds none, so each entry comes from one that was there before.
      have hj : j < l.asked.length := by
        have hj := (List.getElem?_eq_some_iff.mp hentry).1
        rwa [hlength] at hj
      rcases hasked : l.asked[j] with ⟨m, old⟩
      have hold := (List.getElem?_eq_getElem hj).trans (congrArg some hasked)
      obtain ⟨left', hasked', hleft', -⟩ := asked_turn hold (.on i c)
      obtain ⟨rfl, rfl⟩ : m = n ∧ left' = left := by simpa [hasked'] using hentry
      obtain ⟨hnumber, hpath⟩ := h.entry j m old hold
      refine ⟨hnumber, ?_⟩
      intro leaf' hleaf'
      obtain ⟨leaf, hleaf, hsame, -⟩ := hleft' leaf' hleaf'
      rw [hsame, hpath leaf hleaf]

theorem Sound.after (h : Sound base l) (calls : List TreeCall)
    (hcount : l.asked.length + calls.countP TreeCall.creates < UInt64.size)
    : Sound base (l.after calls) := by
  induction calls generalizing l with
  | nil => exact h
  | cons call calls ih =>
    rw [List.countP_cons] at hcount
    refine ih (h.turn (by omega)) ?_
    rw [length_asked_turn]
    omega

-- A call keeps to the directory of its leaf. Where something is there already, no leaf is
-- created.
structure InDirectory (base : String) (t : LeafTurn σ) : Prop where
  number_of_creates : t.call.creates → t.number = some t.before.tree.nextLeaf
  frame (n : UInt64) : t.number = some n →
    ChangesBelow (place σ (leafDirectory base n)) t.before.files t.after.files
  frame_none : t.number = none → t.after.files = t.before.files
  taken (n : UInt64) : t.newNumber? = some n →
    view t.before.files (place σ (leafDirectory base n)) ≠ none →
      (∃ f, t.reply = .created (.error f)) ∧ view t.after.files = view t.before.files
  path_eq (n : UInt64) (leaf : Leaf) : t.newNumber? = some n →
    t.reply = .created (.ok leaf) → leaf.path = leafDirectory base n

theorem Sound.inDirectory (h : Sound base l) (call : TreeCall)
    : InDirectory base (l.turn call) := by
  cases call with
  | create limits =>
    obtain ⟨result, s', hturn, hresult⟩ := l.turn_create limits
    rw [h.leafPath_eq] at hresult
    rw [hturn]
    constructor
    . exact fun _ => rfl
    . rintro n ⟨⟩
      exact hresult.changesBelow
    . exact nofun
    . rintro n ⟨⟩ htaken
      cases hresult with
      | refused f hview => exact ⟨⟨f, rfl⟩, hview⟩
      | abandoned _ hnew => exact absurd hnew htaken
      | made hnew => exact absurd hnew htaken
    . rintro n leaf ⟨⟩ hreply
      obtain rfl : result = .ok leaf := TreeReply.created.inj hreply
      cases hresult
      rfl
  | on i c =>
    rcases turn_cases l (.on i c) with
      ⟨_, _, _, _, hcall, _⟩ | ⟨j, d, n, leaf, reply, left, s', hcall, hasked, hperform, hturn⟩
        | ⟨_, _, _, _, hturn⟩
    . contradiction
    . have hconfined := Leaf.perform_confined (l := leaf) d l.files
      rw [hperform, Leaf.Confined, (h.entry j n _ hasked).2 leaf rfl] at hconfined
      rw [hturn]
      constructor
      . exact nofun
      . rintro m ⟨⟩
        exact hconfined
      . exact nofun
      . exact nofun
      . exact nofun
    . rw [hturn]
      constructor
      . exact nofun
      . exact fun _ _ => ChangesBelow.refl l.files
      . exact fun _ => rfl
      . exact nofun
      . exact nofun

def Lacks (l : Leaves σ) (n : UInt64) : Prop :=
  ∀ entry ∈ l.asked, entry.1 = n → entry.2 = none

theorem Sound.turn_of_lacks (h : Sound base l) {n : UInt64} (hlacks : l.Lacks n) (call : TreeCall)
    (htaken : (l.turn call).newNumber? = some n →
      view l.files (place σ (leafDirectory base n)) ≠ none)
    : (l.turn call).after.Lacks n
        ∧ ∀ q, place σ (leafDirectory base n) <+: q →
            view (l.turn call).after.files q = view l.files q := by
  have hframe {m : UInt64} {s' : σ} (hm : m ≠ n)
      (hchanges : ChangesBelow (place σ (leafDirectory base m)) l.files s') (q : List String)
      (hq : place σ (leafDirectory base n) <+: q) : view s' q = view l.files q := by
    apply hchanges
    intro hother
    exact hm (Tree.eq_of_prefix_of_prefix { base } hother hq)
  cases call with
  | create limits =>
    obtain ⟨result, s', hturn, hresult⟩ := l.turn_create limits
    rw [h.leafPath_eq] at hresult
    have hlast (hnone : l.tree.nextLeaf = n → result.toOption = none)
        : (l.turn (.create limits)).after.Lacks n := by
      intro entry hentry hn
      rw [hturn, List.mem_append, List.mem_singleton] at hentry
      cases hentry with
      | inl hold => exact hlacks entry hold hn
      | inr hnew =>
        rw [hnew] at hn ⊢
        exact hnone hn
    have hother (hnew : view l.files (place σ (leafDirectory base l.tree.nextLeaf)) = none)
        : l.tree.nextLeaf ≠ n := by
      rintro rfl
      apply htaken _ hnew
      rw [hturn]
      rfl
    cases hresult with
    | refused f hview =>
      refine ⟨hlast fun _ => rfl, ?_⟩
      intro q _
      rw [hturn]
      exact congrFun hview q
    | abandoned f hnew hchanges =>
      refine ⟨hlast fun _ => rfl, ?_⟩
      rw [hturn]
      exact hframe (hother hnew) hchanges
    | made hnew hchanges =>
      refine ⟨hlast fun hn => absurd hn (hother hnew), ?_⟩
      rw [hturn]
      exact hframe (hother hnew) hchanges
  | on i c =>
    rcases turn_cases l (.on i c) with
      ⟨_, _, _, _, hcall, _⟩ | ⟨j, d, m, leaf, reply, left, s', hcall, hasked, hperform, hturn⟩
        | ⟨_, _, _, _, hturn⟩
    . contradiction
    -- Only leaves with other numbers are left, and their directories are elsewhere.
    . have hm : m ≠ n := by
        intro hm
        have hnone := hlacks _ (List.mem_of_getElem? hasked) hm
        contradiction
      have hconfined := Leaf.perform_confined (l := leaf) d l.files
      rw [hperform, Leaf.Confined, (h.entry j m _ hasked).2 leaf rfl] at hconfined
      rw [hturn]
      refine ⟨?_, hframe hm hconfined⟩
      intro entry hentry hn
      cases List.mem_or_eq_of_mem_set hentry with
      | inl hold => exact hlacks entry hold hn
      | inr hnew =>
        rw [hnew] at hn
        exact absurd hn hm
    . rw [hturn]
      exact ⟨hlacks, fun _ _ => rfl⟩

theorem Sound.run_of_lacks (h : Sound base l) {n : UInt64} (hlacks : l.Lacks n)
    {calls : List TreeCall}
    (hcount : l.asked.length + calls.countP TreeCall.creates < UInt64.size)
    (htaken : ∀ t ∈ l.run calls, t.newNumber? = some n →
      view t.before.files (place σ (leafDirectory base n)) ≠ none)
    : ∀ t ∈ l.run calls, ∀ q, place σ (leafDirectory base n) <+: q →
        view t.after.files q = view t.before.files q := by
  induction calls generalizing l with
  | nil => simp [run]
  | cons call calls ih =>
    rw [List.countP_cons] at hcount
    rw [run, List.forall_mem_cons, before_turn] at htaken
    obtain ⟨hnext, hsame⟩ := h.turn_of_lacks hlacks call htaken.1
    rw [run, List.forall_mem_cons, before_turn]
    refine ⟨hsame, ih (h.turn (by omega)) hnext ?_ htaken.2⟩
    rw [length_asked_turn]
    omega

/-- The leaves of a tree never meet. Their numbers grow with each call that asks for one, whether
it is successful or not. Every call changes only what is in the directory of its own leaf, and
nothing at all where something was before. Nothing is done any more about a leaf that has been
removed. -/
theorem leaves_apart (base : String) (files : σ) (calls : List TreeCall)
    (h : calls.countP TreeCall.creates < UInt64.size)
    : let turns := run { tree := { base }, files } calls
      (turns.filterMap LeafTurn.newNumber?).Pairwise (· < ·)
        ∧ (∀ m n q, place σ (leafDirectory base m) <+: q → place σ (leafDirectory base n) <+: q →
            m = n)
        ∧ (∀ t ∈ turns, InDirectory base t)
        ∧ (∀ front t back i c, turns = front ++ t :: back → t.call = .on i c →
            t.number = (front.filterMap LeafTurn.newNumber?)[i]?)
        ∧ (∀ n,
            (∀ t ∈ turns, t.newNumber? = some n →
              view t.before.files (place σ (leafDirectory base n)) ≠ none) →
                ∀ t ∈ turns, ∀ q, place σ (leafDirectory base n) <+: q →
                  view t.after.files q = view t.before.files q)
        ∧ ∀ front t middle u back i, turns = front ++ t :: (middle ++ u :: back) →
            t.call = .on i .tryRemove → t.reply = .removal .removed →
              (u.call = .on i .tryRemove ∨ u.call = .on i .drop → u.after.files = u.before.files)
                ∧ (u.call = .on i .tryRemove → (∀ v ∈ middle, v.call ≠ .on i .drop) →
                    u.reply = .removal .removed) := by
  intro turns
  have hstart : Sound base { tree := { base }, files } := sound_start base files
  refine ⟨?_, ?_, ?_, ?_, ?_, ?_⟩
  . have hsound := hstart.after calls (by simpa using h)
    have hnumbers := hsound.pairwise
    rw [numbers_run] at hnumbers
    exact hnumbers
  . intro m n q hm hn
    exact Tree.eq_of_prefix_of_prefix { base } hm hn
  . intro t ht
    obtain ⟨front, back, hturns⟩ := List.append_of_mem ht
    obtain ⟨before, call, rest, rfl, -, rfl, -⟩ := run_eq_append hturns
    rw [List.countP_append] at h
    have hsound := hstart.after before (by simp only [List.length_nil]; omega)
    exact hsound.inDirectory call
  . intro front t back i c hturns hcall
    obtain ⟨before, call, rest, rfl, rfl, rfl, -⟩ := run_eq_append hturns
    rw [call_turn] at hcall
    rw [hcall, number_turn_on, numbers_run]
    rfl
  . intro n htaken
    exact hstart.run_of_lacks (by simp [Lacks]) (by simpa using h) htaken
  . intro front t middle u back i hturns hcall hreply
    exact left_alone_of_removed hturns hcall hreply

-- A hierarchy where the first leaf cannot be created and the second is busy once.
def crowded : Hierarchy where
  files := FileTree.withDirectory {} ["cg", "sandbox-0"]
  faults := [none, none, none, none, none, none, some (.system .busy)]

theorem leaves_apart_of_crowded
    : let calls : List TreeCall :=
        [.create {}, .create {}, .on 1 .kill, .on 1 .tryRemove, .on 1 .tryRemove, .on 1 .tryRemove,
          .on 1 .drop]
      let turns := run { tree := { base := "/cg" }, files := crowded } calls
      calls.countP TreeCall.creates < UInt64.size
        ∧ turns.map (fun t => t.reply matches .created (.error _))
          = [true, false, false, false, false, false, false]
        ∧ turns.map (fun t => t.reply matches .removal .removed)
          = [false, false, false, false, true, true, false]
        ∧ (turns.filterMap LeafTurn.newNumber?).Pairwise (· < ·)
        ∧ ∀ t ∈ turns, InDirectory "/cg" t := by
  intro calls turns
  have hcount : calls.countP TreeCall.creates < UInt64.size := by decide
  have h := leaves_apart "/cg" crowded calls hcount
  exact ⟨hcount, by decide +kernel, by decide +kernel, h.1, h.2.2.1⟩

end Leaves

end Enclosure.ControlGroup
