import Enclosure.Frame.Item

/-!
This module contains the sizes of typed values and the shape of frames: which lists of values can be
written as a frame, and that the length in front of a body is read back.
-/

namespace Enclosure

theorem forM_eq_ok_iff (check : α → Except ε Unit) (l : List α)
    : l.forM check = .ok () ↔ ∀ a ∈ l, check a = .ok () := by
  induction l with
  | nil => simp [pure, Except.pure]
  | cons a l ih =>
    rw [List.forall_mem_cons, ← ih]
    change (check a >>= fun _ => l.forM check) = _ ↔ _
    cases h : check a with
    | error e => simp [bind, Except.bind]
    | ok => simp [bind, Except.bind]

theorem exists_of_forM_eq_error {check : α → Except ε Unit} {l : List α}
    (h : l.forM check = .error e)
    : ∃ a ∈ l, check a = .error e := by
  induction l with
  | nil => simp [pure, Except.pure] at h
  | cons a l ih =>
    change (check a >>= fun _ => l.forM check) = _ at h
    cases ha : check a with
    | error e' =>
      rw [ha] at h
      cases h
      exact ⟨a, List.mem_cons_self, ha⟩
    | ok =>
      rw [ha] at h
      obtain ⟨b, hb, he⟩ := ih h
      exact ⟨b, List.mem_cons_of_mem a hb, he⟩

namespace Item

open Enclosure.Frame

theorem concat_nil (bytes : α → List UInt8) : concat bytes [] = [] := by
  rw [concat_eq_flatMap, List.flatMap_nil]

theorem concat_cons (bytes : α → List UInt8) (a : α) (l : List α)
    : concat bytes (a :: l) = bytes a ++ concat bytes l := rfl

theorem concat_append (bytes : α → List UInt8) (l l' : List α)
    : concat bytes (l ++ l') = concat bytes l ++ concat bytes l' := by
  simp only [concat_eq_flatMap, List.flatMap_append]

theorem length_concat (bytes : α → List UInt8) (size : α → Nat) (l : List α)
    (h : ∀ a, (bytes a).length = size a)
    : (concat bytes l).length = totalSize size l := by
  induction l with
  | nil => rfl
  | cons a l ih =>
    rw [concat_cons, List.length_append, h, ih]
    rfl

theorem length_textBytes (s : String) : (textBytes s).length = textSize s := by
  simp [textBytes, textSize]

theorem length_durationBytes (d : Duration) : (durationBytes d).length = 12 := by
  simp [durationBytes]

theorem length_encode (i : Item) : i.encode.length = i.size := by
  cases i with
  | texts v => simp [encode, size, length_concat _ _ _ length_textBytes]
  | optU32 v | optU64 v | optDuration v =>
    cases v <;> simp [encode, size, optionBytes, length_durationBytes]
  | optText v => cases v <;> simp [encode, size, optionBytes, length_textBytes]; omega
  | text v => exact length_textBytes v
  | _ => simp [encode, size, length_durationBytes]

theorem checkLength_eq_ok_iff (n : Nat) : checkLength n = .ok () ↔ n < UInt32.size := by
  simp [checkLength]

theorem eq_tooLarge_of_checkLength (h : checkLength n = .error e) : e = .tooLarge n := by
  unfold checkLength at h
  split at h
  . contradiction
  . simpa using h.symm

theorem check_text_iff (s : String) : (text s).check = .ok () ↔ s.utf8ByteSize < UInt32.size :=
  checkLength_eq_ok_iff s.utf8ByteSize

theorem check_texts_iff (l : List String)
    : (texts l).check = .ok ()
        ↔
      l.length < UInt32.size ∧ ∀ s ∈ l, s.utf8ByteSize < UInt32.size := by
  change (checkLength l.length >>= fun _ => l.forM fun s => checkLength s.utf8ByteSize) = _ ↔ _
  rw [← checkLength_eq_ok_iff]
  cases h : checkLength l.length with
  | error e => simp [bind, Except.bind]
  | ok => simp only [bind, Except.bind, forM_eq_ok_iff, checkLength_eq_ok_iff, true_and]

theorem check_optText_iff (o : Option String)
    : (optText o).check = .ok () ↔ ∀ s ∈ o, s.utf8ByteSize < UInt32.size := by
  cases o with
  | none => simp [check]
  | some s => simp [check, checkLength_eq_ok_iff]

theorem exists_tooLarge_of_check {i : Item} (h : i.check = .error e) : ∃ n, e = .tooLarge n := by
  cases i with
  | bytes | text => exact ⟨_, eq_tooLarge_of_checkLength h⟩
  | texts v =>
    change (checkLength v.length >>= fun _ => v.forM fun s => checkLength s.utf8ByteSize) = _ at h
    cases hv : checkLength v.length with
    | error e' =>
      rw [hv] at h
      cases h
      exact ⟨_, eq_tooLarge_of_checkLength hv⟩
    | ok =>
      rw [hv] at h
      obtain ⟨s, _, hs⟩ := exists_of_forM_eq_error h
      exact ⟨_, eq_tooLarge_of_checkLength hs⟩
  | optText v =>
    cases v with
    | none => contradiction
    | some v => exact ⟨_, eq_tooLarge_of_checkLength h⟩
  | _ => contradiction

theorem totalSize_append (size : α → Nat) (l l' : List α)
    : totalSize size (l ++ l') = totalSize size l + totalSize size l' := by
  induction l with
  | nil => exact (Nat.zero_add _).symm
  | cons a l ih =>
    change size a + totalSize size (l ++ l') = size a + totalSize size l + _
    rw [ih, Nat.add_assoc]

theorem totalSize_flatMap (size : β → Nat) (f : α → List β) (l : List α)
    : totalSize size (l.flatMap f) = totalSize (fun a => totalSize size (f a)) l := by
  induction l with
  | nil => rfl
  | cons a l ih =>
    rw [List.flatMap_cons, totalSize_append, ih]
    rfl

theorem size_le_totalSize (size : α → Nat) {l : List α} {a : α} (h : a ∈ l)
    : size a ≤ totalSize size l := by
  induction l with
  | nil => contradiction
  | cons b l ih =>
    change size a ≤ size b + totalSize size l
    cases List.mem_cons.mp h with
    | inl hb => rw [hb]; omega
    | inr hl => have := ih hl; omega

theorem length_le_totalSize (size : α → Nat) (l : List α) (h : ∀ a ∈ l, 0 < size a)
    : l.length ≤ totalSize size l := by
  induction l with
  | nil => apply Nat.zero_le
  | cons a l ih =>
    rw [List.forall_mem_cons] at h
    have := ih h.2
    change l.length + 1 ≤ size a + totalSize size l
    omega

theorem size_pos (i : Item) : 0 < i.size := by
  cases i with
  | optU32 v | optU64 v | optDuration v => cases v <;> simp [size]
  | bytes | text | texts | optText =>
    simp only [size, textSize]
    omega
  | _ => simp [size]

theorem check_of_size_lt (i : Item) (h : i.size < UInt32.size) : i.check = .ok () := by
  cases i with
  | bytes v => exact (checkLength_eq_ok_iff _).mpr (by simp only [size] at h; omega)
  | text v => exact (check_text_iff v).mpr (by simp only [size, textSize] at h; omega)
  | optText v =>
    apply (check_optText_iff v).mpr
    intro s hs
    rw [hs] at h
    simp only [size, Option.map_some, Option.getD_some, textSize] at h
    omega
  | texts v =>
    apply (check_texts_iff v).mpr
    simp only [size] at h
    have := length_le_totalSize textSize v fun s _ => by unfold textSize; omega
    refine ⟨by omega, ?_⟩
    intro s hs
    have hsize : 4 + s.utf8ByteSize ≤ totalSize textSize v := size_le_totalSize textSize hs
    omega
  | _ => rfl

end Item

namespace Frame

def ofBody (body : List UInt8) : List UInt8 :=
  littleEndian lengthSize body.length ++ body

theorem drop_ofBody (body : List UInt8) : (ofBody body).drop lengthSize = body := by
  unfold ofBody
  rw [List.drop_left' (length_littleEndian ..)]

theorem length_ofBody (body : List UInt8) : (ofBody body).length = lengthSize + body.length := by
  simp [ofBody]

theorem ofItems_eq_ok (items : List Item) (hcheck : ∀ i ∈ items, i.check = .ok ())
    (hsize : (Item.concat Item.encode items).length ≤ maxBody)
    : ofItems items = .ok (ofBody (Item.concat Item.encode items)) := by
  have hlen := Item.length_concat Item.encode Item.size items Item.length_encode
  unfold ofItems ofBody
  rw [(forM_eq_ok_iff Item.check items).mpr hcheck, hlen]
  rw [hlen] at hsize
  simp [bind, Except.bind, Nat.not_lt.mpr hsize, pure, Except.pure]

theorem ofItems_eq_tooLarge (items : List Item) (hcheck : ∀ i ∈ items, i.check = .ok ())
    (hsize : maxBody < (Item.concat Item.encode items).length)
    : ofItems items = .error (.tooLarge (Item.concat Item.encode items).length) := by
  have hlen := Item.length_concat Item.encode Item.size items Item.length_encode
  unfold ofItems
  rw [(forM_eq_ok_iff Item.check items).mpr hcheck, hlen]
  rw [hlen] at hsize
  simp [bind, Except.bind, hsize, throw, throwThe, MonadExceptOf.throw]

theorem ofItems_tooLarge_or_fits (items : List Item)
    : (∃ n, ofItems items = .error (.tooLarge n))
        ∨
      (∀ i ∈ items, i.check = .ok ()) ∧ (Item.concat Item.encode items).length ≤ maxBody := by
  cases hforM : items.forM Item.check with
  | error e =>
    obtain ⟨i, _, hi⟩ := exists_of_forM_eq_error hforM
    obtain ⟨n, rfl⟩ := Item.exists_tooLarge_of_check hi
    unfold ofItems
    rw [hforM]
    exact .inl ⟨n, rfl⟩
  | ok =>
    have hcheck := (forM_eq_ok_iff Item.check items).mp hforM
    cases Nat.lt_or_ge maxBody (Item.concat Item.encode items).length with
    | inl hsize => exact .inl ⟨_, ofItems_eq_tooLarge items hcheck hsize⟩
    | inr hsize => exact .inr ⟨hcheck, hsize⟩

theorem length?_append (buf rest : List UInt8) (h : lengthSize ≤ buf.length)
    : length? (buf ++ rest) = length? buf := by
  unfold length?
  rw [List.take_append_of_le_length h]

theorem length?_take (buf : List UInt8) (n : Nat) (h : lengthSize ≤ n)
    : length? (buf.take n) = length? buf := by
  unfold length?
  rw [List.take_take, Nat.min_eq_left h]

theorem length?_of_short {buf : List UInt8} (h : buf.length < lengthSize)
    : length? buf = .ok none := by
  unfold length?
  rw [if_pos (by rw [List.length_take]; omega)]

theorem length?_ne_none {buf : List UInt8} (h : lengthSize ≤ buf.length)
    : length? buf ≠ .ok none := by
  unfold length?
  dsimp only
  rw [List.length_take_of_le h, if_neg (Nat.lt_irrefl _)]
  split
  . simp
  . simp

theorem lengthSize_le_of_length? {buf : List UInt8} (h : length? buf = .ok (some size))
    : lengthSize ≤ size ∧ lengthSize ≤ buf.length := by
  unfold length? at h
  dsimp only at h
  split at h
  . simp at h
  . next hlen =>
    rw [List.length_take] at hlen
    split at h
    . simp at h
    . simp at h
      omega

theorem length_le_of_length? {buf : List UInt8} (h : length? buf = .ok (some size))
    : size ≤ lengthSize + maxBody := by
  unfold length? at h
  dsimp only at h
  split at h
  . simp at h
  . split at h
    . simp at h
    . simp only [Except.ok.injEq, Option.some.injEq] at h
      omega

theorem lengthSize_le_of_length?_error {buf : List UInt8} (h : length? buf = .error e)
    : lengthSize ≤ buf.length := by
  apply Nat.le_of_not_lt
  intro hshort
  rw [length?_of_short hshort] at h
  contradiction

-- A complete frame and nothing behind it.
def IsWhole (f : List UInt8) : Prop :=
  length? f = .ok (some f.length)

def NoneWhole (buf : List UInt8) : Prop :=
  ∀ size, length? buf = .ok (some size) → buf.length < size

theorem IsWhole.length?_append {f : List UInt8} (h : IsWhole f) (rest : List UInt8)
    : length? (f ++ rest) = .ok (some f.length) := by
  unfold IsWhole at h
  rw [Frame.length?_append _ _ (lengthSize_le_of_length? h).2, h]

theorem IsWhole.length_pos {f : List UInt8} (h : IsWhole f) : 0 < f.length :=
  Nat.lt_of_lt_of_le (by decide) (lengthSize_le_of_length? h).1

theorem isWhole_take {buf : List UInt8} (h : length? buf = .ok (some size))
    (hsize : size ≤ buf.length)
    : IsWhole (buf.take size) := by
  unfold IsWhole
  rw [length?_take _ _ (lengthSize_le_of_length? h).1, h, List.length_take_of_le hsize]

theorem noneWhole_of_error {buf : List UInt8} (h : length? buf = .error e) : NoneWhole buf := by
  intro size hlength
  rw [h] at hlength
  contradiction

theorem length_flatten_le {fs : List (List UInt8)} (h : ∀ f ∈ fs, IsWhole f)
    : fs.flatten.length ≤ fs.length * (lengthSize + maxBody) := by
  induction fs with
  | nil => exact Nat.zero_le _
  | cons f fs ih =>
    rw [List.forall_mem_cons] at h
    have := length_le_of_length? h.1
    have := ih h.2
    rw [List.flatten_cons, List.length_append, List.length_cons, Nat.succ_mul]
    omega

theorem length_lt_of_noneWhole {buf : List UInt8} (h : NoneWhole buf)
    : (∃ e, length? buf = .error e) ∨ buf.length < lengthSize + maxBody := by
  cases hlength : length? buf with
  | error e => exact .inl ⟨e, rfl⟩
  | ok size =>
    right
    cases size with
    | none =>
      apply Nat.lt_of_not_le
      intro hle
      exact length?_ne_none (by omega) hlength
    | some size =>
      have := h size hlength
      have := length_le_of_length? hlength
      omega

theorem length?_ofBody (body rest : List UInt8) (h : body.length ≤ maxBody)
    : length? (ofBody body ++ rest) = .ok (some (ofBody body).length) := by
  have hsize : body.length < Nat.pow 256 lengthSize := Nat.lt_of_le_of_lt h (by decide)
  rw [length?_append _ _ (by rw [length_ofBody]; omega)]
  unfold length?
  rw [length_ofBody]
  unfold ofBody
  rw [List.take_left' (length_littleEndian ..)]
  simp [ofLittleEndian_littleEndian _ _ hsize, Nat.not_lt.mpr h]

end Frame
end Enclosure
