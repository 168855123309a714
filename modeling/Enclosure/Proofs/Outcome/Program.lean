import Enclosure.Outcome.Program
import Enclosure.Proofs.Reader

/-!
This module contains the theory of single accesses to a page: what a row of stores leaves behind,
which cells a call leaves alone, and what a reader comes to while the cells that it reads stay as
they are.
-/

namespace Enclosure.Outcome

open Page (Cell Call Answer Program)

namespace Store

def cell : Store → Cell
  | progress _ => .progress
  | code _ => .code
  | value _ => .value
  | messageLength _ => .messageLength
  | messageByte i _ => .messageByte i
  | startNanos _ => .startNanos
  | startUser _ => .startUser
  | startSystem _ => .startSystem
  | endNanos _ => .endNanos

def content : (s : Store) → s.cell.Content
  | progress v => v
  | code v | value v => v
  | messageLength v => v
  | messageByte _ v => v
  | startNanos v | startUser v | startSystem v | endNanos v => v

def Fits (s : Store) : Prop :=
  ∀ i, s.cell = .messageByte i → i < messageCapacity

structure Orderly (stores : List Store) : Prop where
  nodup : (stores.map cell).Nodup
  fits : ∀ s ∈ stores, s.Fits

end Store

namespace Page

def Holds (p : Page) (s : Store) : Prop :=
  p.load s.cell = s.content

def Written (p : Page) (stores left : List Store) : Prop :=
  ∃ made, stores = made ++ left ∧ ∀ s ∈ made, p.Holds s

variable {p : Page} {s : Store}

theorem step_claim (next : Bool → Program) (p : Page)
    : (Program.claim next).step p
        =
      if p.progress = .free then (next true, p.store (.progress .claimed))
      else (next false, p) := by
  unfold Program.step Page.claim
  by_cases h : p.progress = .free
  . rw [if_pos h, if_pos h]
    rfl
  . rw [if_neg h, if_neg h]

theorem length_message_store (p : Page) (s : Store)
    : (p.store s).message.length = p.message.length := by
  cases s with
  | messageByte i b => exact List.length_set
  | _ => rfl

theorem load_store_of_ne (p : Page) {c : Cell} (h : s.cell ≠ c)
    : (p.store s).load c = p.load c := by
  cases s with
  | messageByte i b =>
    cases c with
    | messageByte j =>
      have : i ≠ j := fun hij => h (congrArg Cell.messageByte hij)
      simp [store, load, List.getElem?_set_ne this]
    | _ => rfl
  | _ =>
    cases c with
    | messageByte j => rfl
    | _ => first | rfl | contradiction

theorem holds_store (p : Page) (hsize : p.message.length = messageCapacity) (h : s.Fits)
    : (p.store s).Holds s := by
  cases s with
  | messageByte i b =>
    have hi : i < p.message.length := hsize ▸ h i rfl
    simp [Holds, store, load, Store.cell, Store.content, hi]
  | _ => rfl

theorem Holds.congr {q : Page} (h : p.Holds s) (hload : q.load s.cell = p.load s.cell)
    : q.Holds s :=
  hload.trans h

namespace Written

variable {stores left : List Store}

theorem refl (p : Page) (stores : List Store) : Written p stores stores :=
  ⟨[], rfl, by simp⟩

theorem holds (h : Written p stores []) : ∀ s ∈ stores, p.Holds s := by
  obtain ⟨made, rfl, hmade⟩ := h
  rwa [List.append_nil]

theorem congr {q : Page} (h : Written p stores left)
    (hload : ∀ s ∈ stores, q.load s.cell = p.load s.cell)
    : Written q stores left := by
  obtain ⟨made, rfl, hmade⟩ := h
  refine ⟨made, rfl, ?_⟩
  intro s hs
  exact (hmade s hs).congr (hload s (List.mem_append_left _ hs))

theorem store (h : Written p stores (s :: left)) (hsize : p.message.length = messageCapacity)
    (horderly : Store.Orderly stores)
    : Written (p.store s) stores left := by
  obtain ⟨made, rfl, hmade⟩ := h
  refine ⟨made ++ [s], by simp, ?_⟩
  intro s' hs'
  rw [List.mem_append, List.mem_singleton] at hs'
  cases hs' with
  | inl hs' =>
    -- What has been stored before is in other cells.
    have hnodup := horderly.nodup
    rw [List.map_append, List.map_cons, List.nodup_append] at hnodup
    have hne := hnodup.2.2 s'.cell (List.mem_map_of_mem hs') s.cell List.mem_cons_self
    exact (hmade s' hs').congr (p.load_store_of_ne hne.symm)
  | inr hs' =>
    rw [hs']
    exact p.holds_store hsize (horderly.fits s (by simp))

end Written

inductive Yields (P : Page → Prop) : Program → Answer → Prop
  | done (a : Answer) : Yields P (.done a) a
  | load {c : Cell} {next : c.Content → Program} {a : Answer}
      (h : ∀ p, P p → Yields P (next (p.load c)) a) : Yields P (.load c next) a

namespace Yields

variable {P : Page → Prop} {rest : Program} {a b : Answer}

theorem step (h : Yields P rest a) (hp : P p)
    : Yields P (rest.step p).1 a ∧ (rest.step p).2 = p := by
  cases h with
  | done => exact ⟨.done a, rfl⟩
  | load h => exact ⟨h p hp, rfl⟩

theorem eq_of_done (h : Yields P (.done b) a) : a = b := by
  cases h
  rfl

theorem run (h : Yields P rest a) {p : Page} (hp : P p) : rest.run p = (a, p) := by
  induction h with
  | done => rfl
  | load _ ih => exact ih p hp

theorem loadBytes {next : List UInt8 → Program} {bytes : List UInt8} {i : Nat}
    (hload : ∀ p, P p → ∀ j (h : j < bytes.length), p.load (.messageByte (i + j)) = bytes[j])
    (h : Yields P (next bytes) a)
    : Yields P (.loadBytes i bytes.length next) a := by
  induction bytes generalizing i next with
  | nil => exact h
  | cons b bytes ih =>
    apply Yields.load
    intro p hp
    have hb : p.load (.messageByte i) = b := hload p hp 0 (by simp)
    rw [hb]
    apply ih ?_ h
    intro p hp j hj
    have hnext := hload p hp (j + 1) (Nat.succ_lt_succ hj)
    have hindex : i + (j + 1) = i + 1 + j := by omega
    rwa [hindex] at hnext

end Yields

inductive Avoids (C : Cell → Bool) : Program → Prop
  | done (a : Answer) : Avoids C (.done a)
  | claim {next : Bool → Program} (hc : C .progress = false) (h : ∀ b, Avoids C (next b))
    : Avoids C (.claim next)
  | store {s : Store} {next : Program} (hc : C s.cell = false) (h : Avoids C next)
    : Avoids C (.store s next)
  | load {c : Cell} {next : c.Content → Program} (h : ∀ v, Avoids C (next v))
      : Avoids C (.load c next)

namespace Avoids

variable {C : Cell → Bool} {rest : Program}

theorem step (h : Avoids C rest) (p : Page)
    : Avoids C (rest.step p).1 ∧ ∀ c, C c = true → (rest.step p).2.load c = p.load c := by
  have hne {s : Store} (hs : C s.cell = false) {c : Cell} (hc : C c = true) : s.cell ≠ c := by
    intro h
    rw [h, hc] at hs
    contradiction
  cases h with
  | done a => exact ⟨.done a, fun _ _ => rfl⟩
  | load h => exact ⟨h _, fun _ _ => rfl⟩
  | store hs h => exact ⟨h, fun c hc => p.load_store_of_ne (hne hs hc)⟩
  | claim hs h =>
    rw [step_claim]
    split
    . exact ⟨h true, fun c hc => p.load_store_of_ne (hne (s := .progress .claimed) hs hc)⟩
    . exact ⟨h false, fun _ _ => rfl⟩

theorem storing {stores : List Store} (h : ∀ s ∈ stores, C s.cell = false) (a : Answer)
    : Avoids C (.storing stores a) := by
  induction stores with
  | nil => exact .done a
  | cons s stores ih =>
    rw [List.forall_mem_cons] at h
    exact .store h.1 (ih h.2)

theorem publishing {stores : List Store} (hc : C .progress = false)
    (h : ∀ s ∈ stores, C s.cell = false)
    : Avoids C (.publishing stores) := by
  apply Avoids.claim hc
  intro b
  cases b with
  | true => exact storing h _
  | false => exact .done _

theorem loadBytes {next : List UInt8 → Program} (h : ∀ bytes, Avoids C (next bytes)) (i count : Nat)
    : Avoids C (.loadBytes i count next) := by
  induction count generalizing i next with
  | zero => exact h []
  | succ count ih =>
    apply Avoids.load
    intro b
    apply ih
    intro bytes
    exact h (b :: bytes)

theorem loadOutcome : Avoids C .loadOutcome := by
  apply Avoids.load
  intro progress
  cases progress with
  | free | claimed => exact .done _
  | ended => exact .load fun _ => .load fun _ => .done _
  | failed => exact .load fun _ => loadBytes (fun _ => .done _) _ _

theorem loadStart : Avoids C .loadStart := by
  apply Avoids.load
  intro nanos
  split
  . exact .done _
  . apply Avoids.load
    intro user
    split
    . exact .done _
    . exact .load fun _ => .done _

end Avoids

theorem length_message_step (rest : Program) (p : Page)
    : (rest.step p).2.message.length = p.message.length := by
  cases rest with
  | claim next =>
    rw [step_claim]
    split
    . exact p.length_message_store _
    . rfl
  | store s next => exact p.length_message_store s
  | _ => rfl

end Page

end Enclosure.Outcome
