import Enclosure.Frame.Request
import Enclosure.Proofs.Frame
import Enclosure.Proofs.Reader
import Enclosure.Request.Validation

/-!
This module contains the round trip of requests: which requests can be written as a frame, and that
reading the frame back gives the same request with every descriptor in its own slot.
-/

namespace Enclosure

open Frame Reader

namespace Slots

theorem ofBits?_bits (mask : Slots Bool) : ofBits? (bits mask) = some mask := by
  rcases mask with ⟨b0, b1, b2, b3, b4⟩
  revert b0 b1 b2 b3 b4
  decide

theorem count_mask (slots : Slots (Option F)) : count (mask slots) = (present slots).length := by
  rcases slots with ⟨_ | _, _ | _, _ | _, _ | _, _ | _⟩ <;> rfl

theorem fill_mask (slots : Slots (Option F)) : fill (mask slots) (present slots) = slots := by
  rcases slots with ⟨_ | _, _ | _, _ | _, _ | _, _ | _⟩ <;> rfl

end Slots

theorem CpuBandwidth.reads (b : CpuBandwidth)
    : Reads read (Item.concat Item.encode b.items) b :=
  (reads_u32 b.quota).bind ((reads_u32 b.period).bind (Reads.pure b))

theorem GroupLimits.reads (l : GroupLimits)
    : Reads read (Item.concat Item.encode l.items) l := by
  have hprocesses := reads_option u32 _ l.processes fun v _ => reads_u32 v
  have hmemory := reads_option u64 _ l.memory fun v _ => reads_u64 v
  have hbandwidth := reads_option CpuBandwidth.read _ l.bandwidth fun b _ => b.reads
  rcases l with ⟨processes, memory, _ | b⟩
  . exact hprocesses.bind (hmemory.bind (hbandwidth.bind (Reads.pure _)))
  . exact hprocesses.bind (hmemory.bind (hbandwidth.map (GroupLimits.mk processes memory)))

theorem ProcessLimits.reads (l : ProcessLimits)
    : Reads read (Item.concat Item.encode l.items) l := by
  have optional (v : Option UInt64) := reads_option _ _ v fun v _ => reads_u64 v
  exact (optional l.addressSpace).bind <| (optional l.coreSize).bind <|
    (optional l.cpuSeconds).bind <| (optional l.fileSize).bind <|
    (optional l.openFiles).bind <| (optional l.stackSize).bind <| Reads.pure l

theorem GroupLimits.check_items (l : GroupLimits) : ∀ i ∈ l.items, i.check = .ok () := by
  rcases l with ⟨processes, memory, _ | b⟩
  . simp [items, Item.check]
  . simp [items, CpuBandwidth.items, Item.check]

theorem ProcessLimits.check_items (l : ProcessLimits) : ∀ i ∈ l.items, i.check = .ok () := by
  simp [items, Item.check]

theorem MountOp.check_items_iff (op : MountOp)
    : (∀ i ∈ op.items, i.check = .ok ()) ↔ ∀ p ∈ op.paths, p.utf8ByteSize < UInt32.size := by
  cases op with
  | _ => simp [items, paths, Item.check, Item.checkLength_eq_ok_iff]

theorem MountOp.reads (op : MountOp) (h : ∀ p ∈ op.paths, p.utf8ByteSize < UInt32.size)
    : Reads read (Item.concat Item.encode op.items) op := by
  cases op with
  | tmpfs m =>
    exact (reads_u8 0).bind <| (reads_text m.path (h _ (by simp [paths]))).bind <|
      (reads_option _ _ m.size fun v _ => reads_u64 v).bind <|
      (reads_option _ _ m.inodes fun v _ => reads_u64 v).bind <| (reads_u32 m.mode).bind <|
      (reads_bool m.readOnly).bind <| (reads_bool m.noExec).bind <| Reads.pure (tmpfs m)
  | proc m =>
    exact (reads_u8 1).bind <| (reads_text m.path (h _ (by simp [paths]))).bind <|
      (reads_bool m.readOnly).bind <| (reads_bool m.noExec).bind <| Reads.pure (proc m)
  | bind m =>
    exact (reads_u8 2).bind <| (reads_text m.source (h _ (by simp [paths]))).bind <|
      (reads_text m.dest (h _ (by simp [paths]))).bind <| (reads_bool m.recursive).bind <|
      (reads_bool m.readOnly).bind <| (reads_bool m.noExec).bind <|
      (reads_bool m.symlinkNofollow).bind <| Reads.pure (bind m)
  | directory m =>
    exact (reads_u8 3).bind <| (reads_text m.path (h _ (by simp [paths]))).bind <|
      (reads_u32 m.mode).bind <| Reads.pure (directory m)
  | file m =>
    exact (reads_u8 4).bind <| (reads_text m.path (h _ (by simp [paths]))).bind <|
      (reads_u32 m.mode).bind <| Reads.pure (file m)

namespace Request

def body (r : Request F) : List UInt8 :=
  Item.concat Item.encode (r.headItems ++ r.middleItems ++ r.tailItems)

-- Every text and every list of a request is short enough for four bytes to hold its length.
structure LengthsFit (r : Request F) : Prop where
  argv : r.argv.length < UInt32.size
  env : r.env.length < UInt32.size
  mounts : r.mounts.length < UInt32.size
  texts : ∀ s ∈ r.argv ++ r.env ++ r.paths, s.utf8ByteSize < UInt32.size

def fields (r : Request F) : List UInt8 :=
  Item.concat Item.encode ([.texts r.argv, .texts r.env] ++ r.middleItems ++ r.tailItems)

theorem body_eq (r : Request F) : r.body = r.descriptors.mask.bits :: r.fields := rfl

theorem reads_mounts (r : Request F) (h : r.LengthsFit)
    : Reads (times MountOp.read r.mounts.length)
        (Item.concat Item.encode (r.mounts.flatMap MountOp.items)) r.mounts := by
  have := reads_times MountOp.read (fun op => Item.concat Item.encode op.items) r.mounts <| by
    intro op hop
    apply op.reads
    intro p hp
    apply h.texts
    apply List.mem_append_right
    apply List.mem_append_left
    exact List.mem_flatMap_of_mem hop hp
  simp only [Item.concat_eq_flatMap, List.flatMap_assoc] at this ⊢
  exact this

theorem readBody_fields (r : Request F) (h : r.LengthsFit)
    : (readBody r.descriptors).on r.fields = (.ok r, []) := by
  have hargv := reads_texts r.argv h.argv fun s hs => h.texts s (by simp [hs])
  have henv := reads_texts r.env h.env fun s hs => h.texts s (by simp [hs])
  have huid := reads_option u32 _ r.uid fun v _ => reads_u32 v
  have hgid := reads_option u32 _ r.gid fun v _ => reads_u32 v
  have hcount := reads_number 4 r.mounts.length h.mounts
  have hroot := reads_option text _ r.newRoot fun s hs => reads_text s <| by
    apply h.texts
    simp_all [paths]
  have htime := reads_option duration _ r.timeLimit fun d _ => reads_duration d
  have hcpu := reads_option duration _ r.cpuTimeLimit fun d _ => reads_duration d
  unfold fields middleItems tailItems
  simp only [Item.concat_append, Item.concat_cons, Item.concat_nil, Item.encode, List.append_assoc,
    List.nil_append]
  -- The count of the mount operations is cut to 32 bits, which loses nothing.
  rw [UInt32.toNat_ofNat_of_lt' h.mounts]
  unfold readBody
  rw [← List.append_assoc, hargv.on_bind, ← List.append_assoc, henv.on_bind]
  rw [r.groupLimits.reads.on_bind, r.processLimits.reads.on_bind]
  rw [huid.on_bind, hgid.on_bind, hcount.on_bind, (r.reads_mounts h).on_bind]
  rw [hroot.on_bind, htime.on_bind, hcpu.on_bind]
  rfl

theorem check_items_iff (r : Request F)
    : (∀ i ∈ r.headItems ++ r.middleItems ++ r.tailItems, i.check = .ok ())
        ∧ r.mounts.length < UInt32.size
        ↔
      r.LengthsFit := by
  have hgroup := r.groupLimits.check_items
  have hprocess := r.processLimits.check_items
  have hmounts : (∀ i ∈ r.mounts.flatMap MountOp.items, i.check = .ok ())
      ↔ ∀ p ∈ r.mounts.flatMap MountOp.paths, p.utf8ByteSize < UInt32.size := by
    simp only [List.forall_mem_flatMap, MountOp.check_items_iff]
  unfold headItems middleItems tailItems
  constructor
  . intro h
    simp only [List.forall_mem_append, List.forall_mem_cons, Item.check_texts_iff,
      Item.check_optText_iff, hmounts] at h
    obtain ⟨⟨⟨⟨_, hargv, henv, _⟩, _⟩, hpaths, hroot, _⟩, hlength⟩ := h
    refine ⟨hargv.1, henv.1, hlength, ?_⟩
    unfold paths
    simp only [List.forall_mem_append, Option.mem_toList]
    exact ⟨⟨hargv.2, henv.2⟩, hpaths, hroot⟩
  . intro h
    have htexts := h.texts
    unfold paths at htexts
    simp only [List.forall_mem_append, Option.mem_toList] at htexts
    obtain ⟨⟨hargv, henv⟩, hpaths, hroot⟩ := htexts
    refine ⟨?_, h.mounts⟩
    simp only [List.forall_mem_append, List.forall_mem_cons, Item.check_texts_iff,
      Item.check_optText_iff, hmounts]
    have hnil := List.forall_mem_nil fun i : Item => i.check = .ok ()
    exact ⟨⟨⟨rfl, ⟨h.argv, hargv⟩, ⟨h.env, henv⟩, hnil⟩, ⟨hgroup, hprocess⟩, rfl, rfl, rfl, hnil⟩,
      hpaths, hroot, rfl, rfl, hnil⟩

theorem encode_eq_ok (r : Request F) (h : r.LengthsFit) (hsize : r.body.length ≤ maxBody)
    : r.encode = .ok (ofBody r.body, r.descriptors.present) := by
  obtain ⟨hcheck, hmounts⟩ := r.check_items_iff.mpr h
  have hhead : r.headItems.forM Item.check = .ok () := by
    rw [forM_eq_ok_iff]
    intro i hi
    apply hcheck
    simp [hi]
  unfold encode
  rw [hhead, (Item.checkLength_eq_ok_iff _).mpr hmounts, ofItems_eq_ok _ hcheck hsize]
  rfl

theorem encode_tooLarge_or_fits (r : Request F)
    : (∃ n, r.encode = .error (.tooLarge n)) ∨ r.LengthsFit ∧ r.body.length ≤ maxBody := by
  unfold encode
  cases hhead : r.headItems.forM Item.check with
  | error e =>
    obtain ⟨i, _, hi⟩ := exists_of_forM_eq_error hhead
    obtain ⟨n, rfl⟩ := Item.exists_tooLarge_of_check hi
    exact .inl ⟨n, rfl⟩
  | ok =>
    cases hmounts : Item.checkLength r.mounts.length with
    | error e =>
      rw [Item.eq_tooLarge_of_checkLength hmounts]
      exact .inl ⟨_, rfl⟩
    | ok =>
      cases ofItems_tooLarge_or_fits (r.headItems ++ r.middleItems ++ r.tailItems) with
      | inl h =>
        obtain ⟨n, hn⟩ := h
        rw [hn]
        exact .inl ⟨n, rfl⟩
      | inr h =>
        obtain ⟨hcheck, hsize⟩ := h
        exact .inr ⟨r.check_items_iff.mp ⟨hcheck, (Item.checkLength_eq_ok_iff _).mp hmounts⟩, hsize⟩

theorem decode_body (r : Request F) (h : r.LengthsFit) (rest : List F)
    : decode r.body (r.descriptors.present ++ rest) = (.ok r, rest) := by
  unfold decode
  have : u8.on r.body = (.ok r.descriptors.mask.bits, r.fields) :=
    reads_u8 r.descriptors.mask.bits r.fields
  simp only [this, Slots.ofBits?_bits, Slots.count_mask]
  rw [if_neg (by simp), List.take_left', List.drop_left', Slots.fill_mask, r.readBody_fields h]
  . rfl
  . rfl

/-- A request can be written exactly if all its lengths fit and its body is not larger than the
largest one. Reading the body back then takes the descriptors of the request from the front of the
queue and gives the request itself, with each of them in its own slot. -/
theorem tooLarge_or_decode_encode (r : Request F)
    : ((∃ n, r.encode = .error (.tooLarge n)) ↔ maxBody < r.body.length ∨ ¬ r.LengthsFit)
        ∧
      ((∃ n, r.encode = .error (.tooLarge n))
        ∨ ∃ frame,
            r.encode = .ok (frame, r.descriptors.present)
              ∧ frame.drop lengthSize = r.body
              ∧ ∀ rest,
                  decode (frame.drop lengthSize) (r.descriptors.present ++ rest)
                    = (.ok r, rest)) := by
  by_cases hfits : r.LengthsFit ∧ r.body.length ≤ maxBody
  . obtain ⟨hlengths, hsize⟩ := hfits
    have hencode := r.encode_eq_ok hlengths hsize
    constructor
    . simp [hencode, hlengths, hsize]
    . refine .inr ⟨ofBody r.body, hencode, drop_ofBody r.body, ?_⟩
      intro rest
      rw [drop_ofBody]
      exact r.decode_body hlengths rest
  . have htoo := r.encode_tooLarge_or_fits.resolve_right hfits
    refine ⟨iff_of_true htoo ?_, .inl htoo⟩
    rw [Classical.not_and_iff_not_or_not] at hfits
    cases hfits with
    | inl h => exact .inr h
    | inr h => exact .inl (Nat.lt_of_not_le h)

end Request

end Enclosure
