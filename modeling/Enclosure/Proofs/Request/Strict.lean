import Enclosure.Proofs.Reader.Strict
import Enclosure.Proofs.Request.RoundTrip
import Enclosure.Proofs.Request.Stream

/-!
This module contains the strictness of requests: a body that is read as a request is the one body
that the request is written as, so no byte of it is ignored.
-/

namespace Enclosure

open Frame Reader

theorem CpuBandwidth.strict_read : Strict read fun b => Item.concat Item.encode b.items := by
  apply strict_u32.bind
  intro quota
  apply strict_u32.bind
  intro period
  apply Completes.pure
  simp [items, Item.concat, Item.encode]

theorem GroupLimits.strict_read : Strict read fun l => Item.concat Item.encode l.items := by
  apply (strict_option strict_u32).bind
  intro processes
  apply (strict_option strict_u64).bind
  intro memory
  apply (strict_option CpuBandwidth.strict_read).bind
  intro bandwidth
  apply Completes.pure
  cases bandwidth with
  | none => simp [items, Item.concat, Item.encode, Item.optionBytes, Item.boolByte]
  | some b => simp [items, Item.concat, Item.encode, Item.optionBytes, Item.boolByte]

theorem ProcessLimits.strict_read : Strict read fun l => Item.concat Item.encode l.items := by
  iterate 6
    apply (strict_option strict_u64).bind
    intro
  apply Completes.pure
  simp [items, Item.concat, Item.encode]

theorem MountOp.strict_read : Strict read fun op => Item.concat Item.encode op.items := by
  apply strict_u8.bind
  intro tag
  -- Each tag starts the fields of its own operation.
  split
  . next htag =>
    apply strict_text.bind
    intro path
    iterate 2
      apply (strict_option strict_u64).bind
      intro
    apply strict_u32.bind
    intro mode
    iterate 2
      apply strict_bool.bind
      intro
    apply Completes.pure
    rw [show tag = 0 from UInt8.toNat_inj.mp htag]
    simp [items, Item.concat, Item.encode]
  . next htag =>
    apply strict_text.bind
    intro path
    iterate 2
      apply strict_bool.bind
      intro
    apply Completes.pure
    rw [show tag = 1 from UInt8.toNat_inj.mp htag]
    simp [items, Item.concat, Item.encode]
  . next htag =>
    iterate 2
      apply strict_text.bind
      intro
    iterate 4
      apply strict_bool.bind
      intro
    apply Completes.pure
    rw [show tag = 2 from UInt8.toNat_inj.mp htag]
    simp [items, Item.concat, Item.encode]
  . next htag =>
    apply strict_text.bind
    intro path
    apply strict_u32.bind
    intro mode
    apply Completes.pure
    rw [show tag = 3 from UInt8.toNat_inj.mp htag]
    simp [items, Item.concat, Item.encode]
  . next htag =>
    apply strict_text.bind
    intro path
    apply strict_u32.bind
    intro mode
    apply Completes.pure
    rw [show tag = 4 from UInt8.toNat_inj.mp htag]
    simp [items, Item.concat, Item.encode]
  . exact .throw _

theorem Slots.bits_of_ofBits? {n : UInt8} {mask : Slots Bool} (h : ofBits? n = some mask)
    : bits mask = n := by
  have hbits : ∀ k < 32,
      bits ⟨k.testBit 0, k.testBit 1, k.testBit 2, k.testBit 3, k.testBit 4⟩ = UInt8.ofNat k :=
    by decide
  unfold ofBits? at h
  split at h
  . next hlt =>
    cases h
    rw [hbits n.toNat hlt, UInt8.ofNat_toNat]
  . contradiction

namespace Request

theorem length_mounts_le (ops : List MountOp)
    : ops.length ≤ (ops.flatMap MountOp.items).length := by
  induction ops with
  | nil => apply Nat.zero_le
  | cons op ops ih =>
    have : 0 < op.items.length := by cases op <;> simp [MountOp.items]
    rw [List.flatMap_cons, List.length_append, List.length_cons]
    omega

theorem lengthsFit_of_length_body_lt (r : Request F) (h : r.body.length < UInt32.size)
    : r.LengthsFit := by
  unfold body at h
  rw [Item.length_concat Item.encode Item.size _ Item.length_encode] at h
  apply r.check_items_iff.mp
  constructor
  . intro i hi
    apply i.check_of_size_lt
    exact Nat.lt_of_le_of_lt (Item.size_le_totalSize Item.size hi) h
  . have hitems := Item.length_le_totalSize Item.size
      (r.headItems ++ r.middleItems ++ r.tailItems) fun i _ => i.size_pos
    have hmounts := length_mounts_le r.mounts
    have htail : (r.mounts.flatMap MountOp.items).length ≤ r.tailItems.length := by
      simp [tailItems]
    simp only [List.length_append] at hitems
    omega

theorem strict_readBody (slots : Slots (Option F)) : Strict (readBody slots) fields := by
  apply strict_texts.bind
  intro argv
  apply strict_texts.bind
  intro env
  apply GroupLimits.strict_read.bind
  intro groupLimits
  apply ProcessLimits.strict_read.bind
  intro processLimits
  iterate 2
    apply (strict_option strict_u32).bind
    intro
  apply (strict_number 4).bind
  intro count
  apply (completes_times MountOp.strict_read (fun n => _ ++ littleEndian 4 n) count).bind
  intro mounts
  apply (strict_option strict_text).bind
  intro newRoot
  iterate 2
    apply (strict_option strict_duration).bind
    intro
  apply strict_finish.bind
  intro _
  apply Completes.pure
  have hmounts : Item.concat (fun op => Item.concat Item.encode op.items) mounts
      = Item.concat Item.encode (mounts.flatMap MountOp.items) := by
    simp only [Item.concat_eq_flatMap, List.flatMap_assoc]
  -- The count is written cut to 32 bits, and those are all bits of the four bytes.
  have hcount : littleEndian 4 (mounts.length % 2 ^ 32) = littleEndian 4 mounts.length :=
    littleEndian_mod 4 mounts.length
  unfold fields middleItems tailItems
  simp only [Item.concat_append, Item.concat_cons, Item.concat_nil, Item.encode, List.append_assoc,
    List.nil_append, List.append_nil]
  rw [UInt32.toNat_ofNat', hcount, hmounts]

theorem exhausts_readBody (slots : Slots (Option F)) : Exhausts (readBody slots) := by
  unfold readBody
  iterate 11 refine Exhausts.bind (fun _ => ?_) _
  apply exhausts_finish

theorem eq_fields_of_readBody {slots : Slots (Option F)} {rest : List UInt8} {r : Request F}
    (h : ((readBody slots).on rest).1 = .ok r)
    : rest = r.fields ∧ r.descriptors = slots := by
  have hon : (readBody slots).on rest = (.ok r, ((readBody slots).on rest).2) := Prod.ext h rfl
  have hfields : rest = r.fields ++ _ := strict_readBody slots rest r _ hon
  rw [exhausts_readBody slots rest r _ hon, List.append_nil] at hfields
  exact ⟨hfields, returns_readBody slots rest r _ hon⟩

theorem eq_body_of_decode {body : List UInt8} {descriptors left : List F} {r : Request F}
    (h : decode body descriptors = (.ok r, left))
    : body = r.body ∧ descriptors = r.descriptors.present ++ left := by
  unfold decode at h
  split at h
  . simp at h
  . next bits rest hbits =>
    have hbody : body = bits :: rest := strict_u8 body bits rest hbits
    split at h
    . simp at h
    . next mask hmask =>
      split at h
      . simp at h
      . next hcount =>
        rw [Prod.mk.injEq] at h
        obtain ⟨hread, rfl⟩ := h
        obtain ⟨hfields, hslots⟩ := eq_fields_of_readBody hread
        obtain ⟨hpresent, hfilled⟩ := Slots.fill_eq mask (descriptors.take mask.count)
          (List.length_take_of_le (Nat.le_of_not_lt hcount))
        constructor
        . rw [hbody, hfields, body_eq, hslots, hfilled, Slots.bits_of_ofBits? hmask]
        . rw [hslots, hpresent, List.take_append_drop]

/-- Reading is strict: a body that is read as a request is byte for byte the body that the request
is written as, and the descriptors that go with it are those that were taken from the front of the
queue. So no other body is read as the same request. -/
theorem encode_of_decode (body : List UInt8) (descriptors left : List F) (r : Request F)
    (hsize : body.length ≤ maxBody) (h : decode body descriptors = (.ok r, left))
    : r.encode = .ok (ofBody body, r.descriptors.present)
        ∧ descriptors = r.descriptors.present ++ left
        ∧ ∀ body' descriptors' left',
            decode body' descriptors' = (.ok r, left') → body' = body := by
  obtain ⟨hbody, hdescriptors⟩ := eq_body_of_decode h
  rw [hbody] at hsize ⊢
  have hfits := r.lengthsFit_of_length_body_lt (Nat.lt_of_le_of_lt hsize (by decide))
  refine ⟨r.encode_eq_ok hfits hsize, hdescriptors, ?_⟩
  intro body' descriptors' left' h'
  exact (eq_body_of_decode h').1

-- Standard error comes with it; there is one mount, a new root and a limit of half a second.
def bodyWithMount : List UInt8 :=
  [4, 1, 0, 0, 0, 1, 0, 0, 0, 97, 0, 0, 0, 0, 0, 0, 1, 1, 0, 0, 0, 2, 0, 0, 0]
    ++ [0, 0, 0, 0, 0, 0, 0, 0, 1, 0, 0, 0, 3, 2, 0, 0, 0, 47, 98, 237, 1, 0, 0]
    ++ [1, 1, 0, 0, 0, 47, 1, 0, 0, 0, 0, 0, 0, 0, 0, 0, 101, 205, 29, 0]

theorem encode_of_decode_bodyWithMount
    : ∃ r : Request Nat,
        decode bodyWithMount [7, 8] = (.ok r, [8])
          ∧ r.encode = .ok (ofBody bodyWithMount, [7]) := by
  obtain ⟨hencode, _, _⟩ := encode_of_decode bodyWithMount [7, 8] [8] _ (by decide) rfl
  exact ⟨_, rfl, hencode⟩

end Request

end Enclosure
