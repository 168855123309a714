import Enclosure.Proofs.Reader.Strict

/-!
This module contains the laws of reading values one after the other, whatever their types are. What
has been written is read back, and any other body is accounted for byte by byte: a read that
succeeds has taken exactly the bytes that stand for its value, and one that fails has only taken
some bytes from the front of what was there.
-/

namespace Enclosure

namespace Frame

theorem ofLittleEndian_lt (bytes : List UInt8)
    : ofLittleEndian bytes < Nat.pow 256 bytes.length := by
  induction bytes with
  | nil => exact Nat.one_pos
  | cons b bytes ih =>
    have hb := b.toNat_lt
    have hpow : Nat.pow 256 (bytes.length + 1) = Nat.pow 256 bytes.length * 256 := rfl
    rw [List.length_cons, ofLittleEndian, hpow]
    omega

theorem ofItems_eq_ok_iff {items : List Item} {frame : List UInt8}
    : ofItems items = .ok frame
        ↔
      (∀ i ∈ items, i.check = .ok ())
        ∧ (Item.concat Item.encode items).length ≤ maxBody
        ∧ frame = ofBody (Item.concat Item.encode items) := by
  constructor
  . intro h
    obtain ⟨n, herror⟩ | ⟨hcheck, hsize⟩ := ofItems_tooLarge_or_fits items
    . rw [herror] at h
      contradiction
    . rw [ofItems_eq_ok items hcheck hsize, Except.ok.injEq] at h
      exact ⟨hcheck, hsize, h.symm⟩
  . rintro ⟨hcheck, hsize, rfl⟩
    exact ofItems_eq_ok items hcheck hsize

end Frame

namespace Reader

open Enclosure.Frame

def LeavesSuffix (r : Reader α) : Prop :=
  ∀ body, (r.on body).2 <:+ body

namespace LeavesSuffix

variable {r : Reader α} {f : α → Reader β}

theorem pure (a : α) : LeavesSuffix (Pure.pure a) :=
  fun body => List.suffix_refl body

theorem throw (e : FrameError) : LeavesSuffix (MonadExcept.throw e : Reader α) :=
  fun body => List.suffix_refl body

theorem bind (h : LeavesSuffix r) (h' : ∀ a, LeavesSuffix (f a)) : LeavesSuffix (r >>= f) := by
  intro body
  have hleft := h body
  rw [on_bind]
  split
  . next a rest ha =>
    rw [ha] at hleft
    exact (h' a rest).trans hleft
  . next e rest he =>
    rw [he] at hleft
    exact hleft

theorem map (h : LeavesSuffix r) (f : α → β) : LeavesSuffix (f <$> r) :=
  h.bind fun a => pure (f a)

theorem get {f : List UInt8 → Reader β} (h : ∀ body, LeavesSuffix (f body))
    : LeavesSuffix (MonadState.get >>= f) :=
  fun body => h body body

theorem take (n : Nat) : LeavesSuffix (Reader.take n) := by
  intro body
  rw [on_take]
  split
  . exact List.suffix_refl body
  . exact List.drop_suffix n body

theorem number (width : Nat) : LeavesSuffix (Reader.number width) :=
  (take width).map ofLittleEndian

theorem u8 : LeavesSuffix Reader.u8 :=
  (number 1).map UInt8.ofNat

theorem bool : LeavesSuffix Reader.bool := by
  apply u8.bind
  intro b
  split
  . exact pure _
  . split
    . exact pure _
    . exact throw _

theorem u32 : LeavesSuffix Reader.u32 :=
  (number 4).map UInt32.ofNat

theorem u64 : LeavesSuffix Reader.u64 :=
  (number 8).map UInt64.ofNat

theorem bytes : LeavesSuffix Reader.bytes :=
  (number 4).bind take

theorem text : LeavesSuffix Reader.text := by
  apply bytes.bind
  intro v
  split
  . exact pure _
  . exact throw _

theorem times (h : LeavesSuffix r) (n : Nat) : LeavesSuffix (Reader.times r n) := by
  induction n with
  | zero => exact pure _
  | succ n ih => exact h.bind fun a => ih.map (a :: ·)

theorem texts : LeavesSuffix Reader.texts := by
  apply (number 4).bind
  intro n
  apply get
  intro body
  split
  . exact throw _
  . exact text.times n

theorem option (h : LeavesSuffix r) : LeavesSuffix (Reader.option r) := by
  apply bool.bind
  intro b
  cases b with
  | false => exact pure _
  | true => exact h.map some

theorem duration : LeavesSuffix Reader.duration := by
  apply u64.bind
  intro secs
  apply u32.bind
  intro nanos
  split
  . exact pure _
  . exact throw _

end LeavesSuffix

namespace Returns

variable {r : Reader α} {P : α → Prop} {Q : β → Prop}

theorem trivial (r : Reader α) : Returns r fun _ => True :=
  fun _ _ _ _ => .intro

theorem seq {f : α → Reader β} (h : Returns r P) (h' : ∀ a, P a → Returns (f a) Q)
    : Returns (r >>= f) Q := by
  intro body b rest hon
  rw [on_bind] at hon
  split at hon
  . next a mid ha => exact h' a (h body a mid ha) mid b rest hon
  . simp at hon

theorem map {f : α → β} (h : Returns r P) (h' : ∀ a, P a → Q (f a)) : Returns (f <$> r) Q :=
  h.seq fun a ha => Returns.pure (h' a ha)

theorem throw (e : FrameError) : Returns (MonadExcept.throw e : Reader α) P := by
  intro body a rest hon
  cases hon

theorem get {f : List UInt8 → Reader β} (h : ∀ body, Returns (f body) Q)
    : Returns (MonadState.get >>= f) Q :=
  fun body => h body body

theorem take (n : Nat) : Returns (Reader.take n) fun bytes => bytes.length = n := by
  intro body bytes rest hon
  rw [on_take] at hon
  split at hon
  . simp at hon
  . next hlength =>
    cases hon
    exact List.length_take_of_le (Nat.le_of_not_lt hlength)

theorem number (width : Nat) : Returns (Reader.number width) fun n => n < Nat.pow 256 width :=
  (take width).map fun bytes hlength => hlength ▸ ofLittleEndian_lt bytes

theorem bytes : Returns Reader.bytes fun v => v.length < UInt32.size := by
  refine (number 4).seq fun n hn => ?_
  intro body v rest hon
  rw [take n body v rest hon]
  exact hn

theorem text : Returns Reader.text fun s => s.utf8ByteSize < UInt32.size := by
  refine bytes.seq fun v hv => ?_
  split
  . next s hs =>
    apply Returns.pure
    rw [← length_toUTF8, toUTF8_of_fromUTF8? hs]
    exact hv
  . exact throw _

theorem times (h : Returns r P) (n : Nat)
    : Returns (Reader.times r n) fun l => l.length = n ∧ ∀ a ∈ l, P a := by
  induction n with
  | zero => exact Returns.pure ⟨rfl, by simp⟩
  | succ n ih =>
    refine h.seq fun a ha => ih.map ?_
    rintro l ⟨hlength, hl⟩
    exact ⟨by rw [List.length_cons, hlength], List.forall_mem_cons.mpr ⟨ha, hl⟩⟩

theorem texts
    : Returns Reader.texts fun l =>
        l.length < UInt32.size ∧ ∀ s ∈ l, s.utf8ByteSize < UInt32.size := by
  refine (number 4).seq fun n hn => get fun body => ?_
  split
  . exact throw _
  . intro rest l left hon
    obtain ⟨hlength, hl⟩ := text.times n rest l left hon
    exact ⟨hlength ▸ hn, hl⟩

theorem option (h : Returns r P) : Returns (Reader.option r) fun o => ∀ a ∈ o, P a := by
  refine (trivial Reader.bool).seq fun b _ => ?_
  cases b with
  | false => exact Returns.pure (by simp)
  | true =>
    refine h.map fun a ha => ?_
    rintro _ ⟨⟩
    exact ha

end Returns

end Reader

namespace Item

open Enclosure.Frame Reader

theorem reads_read (i : Item) (h : i.check = .ok ()) : Reads (read i.kind) i.encode i := by
  cases i with
  | u8 v => exact (reads_u8 v).map u8
  | bool v => exact (reads_bool v).map bool
  | u32 v => exact (reads_u32 v).map u32
  | i32 v => exact (reads_i32 v).map i32
  | u64 v => exact (reads_u64 v).map u64
  | bytes v => exact (reads_bytes v ((checkLength_eq_ok_iff _).mp h)).map bytes
  | text v => exact (reads_text v ((check_text_iff v).mp h)).map text
  | texts v =>
    obtain ⟨hlength, hsizes⟩ := (check_texts_iff v).mp h
    exact (reads_texts v hlength hsizes).map texts
  | optU32 v => exact (reads_option _ _ v fun v _ => reads_u32 v).map optU32
  | optU64 v => exact (reads_option _ _ v fun v _ => reads_u64 v).map optU64
  | optText v =>
    have hsizes := (check_optText_iff v).mp h
    exact (reads_option _ _ v fun s hs => reads_text s (hsizes s hs)).map optText
  | duration v => exact (reads_duration v).map duration
  | optDuration v => exact (reads_option _ _ v fun d _ => reads_duration d).map optDuration

theorem strict_read (k : Kind) : Strict (read k) encode := by
  cases k with
  | u8 => exact strict_u8.map fun _ => rfl
  | bool => exact strict_bool.map fun _ => rfl
  | u32 => exact strict_u32.map fun _ => rfl
  | i32 => exact strict_i32.map fun _ => rfl
  | u64 => exact strict_u64.map fun _ => rfl
  | bytes => exact strict_bytes.map fun _ => rfl
  | text => exact strict_text.map fun _ => rfl
  | texts => exact strict_texts.map fun _ => rfl
  | optU32 => exact (strict_option strict_u32).map fun _ => rfl
  | optU64 => exact (strict_option strict_u64).map fun _ => rfl
  | optText => exact (strict_option strict_text).map fun _ => rfl
  | duration => exact strict_duration.map fun _ => rfl
  | optDuration => exact (strict_option strict_duration).map fun _ => rfl

theorem returns_read (k : Kind) : Returns (read k) fun i => i.kind = k ∧ i.check = .ok () := by
  cases k with
  | bytes => exact Returns.bytes.map fun v hv => ⟨rfl, (checkLength_eq_ok_iff _).mpr hv⟩
  | text => exact Returns.text.map fun s hs => ⟨rfl, (check_text_iff s).mpr hs⟩
  | texts => exact Returns.texts.map fun l hl => ⟨rfl, (check_texts_iff l).mpr hl⟩
  | optText => exact Returns.text.option.map fun o ho => ⟨rfl, (check_optText_iff o).mpr ho⟩
  | _ => exact (Returns.trivial _).map fun _ _ => ⟨rfl, rfl⟩

theorem leavesSuffix_read (k : Kind) : LeavesSuffix (read k) := by
  cases k with
  | u8 => exact LeavesSuffix.u8.map u8
  | bool => exact LeavesSuffix.bool.map bool
  | u32 => exact LeavesSuffix.u32.map u32
  | i32 => exact (LeavesSuffix.u32.map UInt32.toInt32).map i32
  | u64 => exact LeavesSuffix.u64.map u64
  | bytes => exact LeavesSuffix.bytes.map bytes
  | text => exact LeavesSuffix.text.map text
  | texts => exact LeavesSuffix.texts.map texts
  | optU32 => exact LeavesSuffix.u32.option.map optU32
  | optU64 => exact LeavesSuffix.u64.option.map optU64
  | optText => exact LeavesSuffix.text.option.map optText
  | duration => exact LeavesSuffix.duration.map duration
  | optDuration => exact LeavesSuffix.duration.option.map optDuration

def leftAfter (ks : List Kind) (body : List UInt8) : List UInt8 :=
  ks.foldl (fun rest k => ((read k).on rest).2) body

-- A read that succeeds has taken exactly the bytes that stand for its value, which has the type
-- that was asked for and can be written; one that fails has only taken bytes from the front.
def Takes (k : Kind) (there : List UInt8) : Except FrameError Item → List UInt8 → Prop
  | .ok i, left => i.kind = k ∧ i.check = .ok () ∧ there = i.encode ++ left
  | .error _, left => left <:+ there

theorem takes_read (k : Kind) (there : List UInt8)
    : Takes k there ((read k).on there).1 ((read k).on there).2 := by
  rcases hon : (read k).on there with ⟨e | i, left⟩
  . have hleft := leavesSuffix_read k there
    rw [hon] at hleft
    exact hleft
  . obtain ⟨hkind, hcheck⟩ := returns_read k there i left hon
    exact ⟨hkind, hcheck, strict_read k there i left hon⟩

theorem readEach_cons (k : Kind) (ks : List Kind) (body : List UInt8)
    : readEach (k :: ks) body
        =
      (((read k).on body).1 :: (readEach ks ((read k).on body).2).1,
        (readEach ks ((read k).on body).2).2) := rfl

theorem readEach_snd (ks : List Kind) (body : List UInt8)
    : (readEach ks body).2 = (finish.on (leftAfter ks body)).1 := by
  induction ks generalizing body with
  | nil => rfl
  | cons k ks ih => exact ih _

theorem getElem?_readEach {ks : List Kind} {i : Nat} {k : Kind} (h : ks[i]? = some k)
    (body : List UInt8)
    : (readEach ks body).1[i]? = some ((read k).on (leftAfter (ks.take i) body)).1 := by
  induction ks generalizing i body with
  | nil => simp at h
  | cons k' ks ih =>
    rw [readEach_cons]
    cases i with
    | zero =>
      rw [List.getElem?_cons_zero, Option.some.injEq] at h
      rw [List.getElem?_cons_zero, h]
      rfl
    | succ i =>
      rw [List.getElem?_cons_succ] at h
      rw [List.getElem?_cons_succ, ih h]
      rfl

theorem leftAfter_take_succ {ks : List Kind} {i : Nat} {k : Kind} (h : ks[i]? = some k)
    (body : List UInt8)
    : leftAfter (ks.take (i + 1)) body = ((read k).on (leftAfter (ks.take i) body)).2 := by
  rw [List.take_add_one, h, leftAfter, List.foldl_append]
  rfl

theorem readEach_concat_append {items : List Item} (h : ∀ i ∈ items, i.check = .ok ())
    (rest : List UInt8)
    : readEach (items.map kind) (concat encode items ++ rest)
        = (items.map .ok, (finish.on rest).1) := by
  induction items with
  | nil => rfl
  | cons i items ih =>
    rw [List.forall_mem_cons] at h
    rw [concat_cons, List.append_assoc, List.map_cons, readEach_cons, i.reads_read h.1, ih h.2]
    rfl

theorem length_readEach (ks : List Kind) (body : List UInt8)
    : (readEach ks body).1.length = ks.length := by
  induction ks generalizing body with
  | nil => rfl
  | cons k ks ih => rw [readEach_cons, List.length_cons, List.length_cons, ih]

/-- Whatever their types are, values that are written as a frame are read back from its body with
nothing left, and the length in front tells where the frame ends. Any types can be read from any
body, and each byte of it is accounted for: by the value that it stands for, by a read that failed,
or by the number of bytes that are left in the end. -/
theorem readEach_ofItems_and_takes
    : (∀ items frame, ofItems items = .ok frame →
          frame.drop lengthSize = concat encode items
            ∧ readEach (items.map kind) (frame.drop lengthSize) = (items.map .ok, .ok ())
            ∧ ∀ rest, length? (frame ++ rest) = .ok (some frame.length))
        ∧
      ∀ ks body,
        (readEach ks body).1.length = ks.length
          ∧ (∀ i k, ks[i]? = some k → ∃ result,
              (readEach ks body).1[i]? = some result
                ∧ Takes k (leftAfter (ks.take i) body) result (leftAfter (ks.take (i + 1)) body))
          ∧ (readEach ks body).2
              = if leftAfter ks body = [] then .ok ()
                else .error (.trailingBytes (leftAfter ks body).length) := by
  constructor
  . intro items frame h
    obtain ⟨hcheck, hsize, rfl⟩ := ofItems_eq_ok_iff.mp h
    have hread := readEach_concat_append hcheck []
    rw [List.append_nil] at hread
    rw [drop_ofBody, hread]
    exact ⟨rfl, rfl, fun rest => length?_ofBody _ rest hsize⟩
  . intro ks body
    refine ⟨length_readEach ks body, ?_, ?_⟩
    . intro i k h
      rw [leftAfter_take_succ h]
      exact ⟨_, getElem?_readEach h body, takes_read k _⟩
    . rw [readEach_snd, on_finish]
      split
      . rfl
      . rfl

def mixed : List Item :=
  [.texts ["a", ""], .optU64 (some 5), .bool true]

theorem readEach_ofItems_and_takes_of_mixed
    : (∃ frame,
          ofItems mixed = .ok frame
            ∧ readEach [.texts, .optU64, .bool] (frame.drop lengthSize)
                = (mixed.map .ok, .ok ()))
        ∧ readEach [.bool, .u8, .u32] [2, 7, 255]
            = ([.error (.invalidBool 2), .ok (.u8 7), .error .truncated],
                .error (.trailingBytes 1))
        ∧ Takes .bool [2, 7, 255] (.error (.invalidBool 2)) [7, 255]
        ∧ Takes .u8 [7, 255] (.ok (.u8 7)) [255]
        ∧ Takes .u32 [255] (.error .truncated) [255] := by
  obtain ⟨_, hread, _⟩ := readEach_ofItems_and_takes.1 mixed _ rfl
  obtain ⟨_, htakes, _⟩ := readEach_ofItems_and_takes.2 [.bool, .u8, .u32] [2, 7, 255]
  obtain ⟨_, hbool, hbool'⟩ := htakes 0 .bool rfl
  obtain ⟨_, hu8, hu8'⟩ := htakes 1 .u8 rfl
  obtain ⟨_, hu32, hu32'⟩ := htakes 2 .u32 rfl
  cases hbool
  cases hu8
  cases hu32
  exact ⟨⟨_, rfl, hread⟩, rfl, hbool', hu8', hu32'⟩

end Item

end Enclosure
