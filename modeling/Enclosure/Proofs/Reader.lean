import Enclosure.Frame.Reader

/-!
This module contains the laws of readers: how they compose, and that each of them consumes exactly
the bytes that stand for its value.
-/

namespace Enclosure
namespace Reader

open Enclosure.Frame

theorem on_pure (a : α) (body : List UInt8)
    : (pure a : Reader α).on body = (.ok a, body) := rfl

theorem on_bind (r : Reader α) (f : α → Reader β) (body : List UInt8)
    : (r >>= f).on body
        =
      match r.on body with
      | (.ok a, rest) => (f a).on rest
      | (.error e, rest) => (.error e, rest) := by
  show (ExceptT.bindCont f (r body).1 : Reader β) (r body).2 = _
  unfold Reader.on ExceptT.run
  rcases r body with ⟨res, rest⟩
  cases res with
  | ok => rfl
  | error => rfl

theorem on_get (body : List UInt8)
    : (get : Reader (List UInt8)).on body = (.ok body, body) := rfl

def Reads (r : Reader α) (bytes : List UInt8) (a : α) : Prop :=
  ∀ rest, r.on (bytes ++ rest) = (.ok a, rest)

namespace Reads

theorem pure (a : α) : Reads (Pure.pure a) [] a := by
  intro rest
  rfl

variable {r : Reader α} {f : α → Reader β} {head tail : List UInt8} {a : α} {b : β}

theorem on_bind (h : Reads r head a) (f : α → Reader β) (rest : List UInt8)
    : (r >>= f).on (head ++ rest) = (f a).on rest := by
  rw [Reader.on_bind, h]

theorem bind (h : Reads r head a) (h' : Reads (f a) tail b)
    : Reads (r >>= f) (head ++ tail) b := by
  intro rest
  rw [List.append_assoc, h.on_bind, h']

theorem map (h : Reads r head a) (f : α → β) : Reads (f <$> r) head (f a) := by
  have := bind (f := fun a => Pure.pure (f a)) h (Reads.pure (f a))
  rw [List.append_nil] at this
  exact this

end Reads

def Returns (r : Reader α) (P : α → Prop) : Prop :=
  ∀ body a rest, r.on body = (.ok a, rest) → P a

theorem Returns.pure {P : α → Prop} (h : P a) : Returns (Pure.pure a) P := by
  intro body a' rest hon
  cases hon
  exact h

theorem Returns.bind {P : β → Prop} {f : α → Reader β} (h : ∀ a, Returns (f a) P) (r : Reader α)
    : Returns (r >>= f) P := by
  intro body b rest hon
  rw [on_bind] at hon
  split at hon
  . next a rest' _ => exact h a rest' b rest hon
  . simp at hon

theorem on_take (n : Nat) (body : List UInt8)
    : (take n).on body
        =
      if body.length < n then (.error .truncated, body) else (.ok (body.take n), body.drop n) := by
  unfold take
  rw [on_bind, on_get]
  dsimp only
  rw [List.length_take]
  split
  . rw [if_pos (by omega)]
    rfl
  . rw [if_neg (by omega)]
    rfl

theorem reads_take (bytes : List UInt8) : Reads (take bytes.length) bytes bytes := by
  intro rest
  rw [on_take, if_neg (by simp)]
  simp

theorem reads_number (width n : Nat) (h : n < Nat.pow 256 width)
    : Reads (number width) (littleEndian width n) n := by
  have := (reads_take (littleEndian width n)).map ofLittleEndian
  rw [length_littleEndian, ofLittleEndian_littleEndian width n h] at this
  exact this

theorem reads_u8 (v : UInt8) : Reads u8 [v] v := by
  have := (reads_number 1 v.toNat v.toNat_lt).map UInt8.ofNat
  simp only [littleEndian, UInt8.ofNat_toNat] at this
  exact this

theorem reads_bool (b : Bool) : Reads bool [Item.boolByte b] b := by
  intro rest
  unfold bool
  rw [(reads_u8 _).on_bind]
  cases b with
  | false => rfl
  | true => rfl

theorem reads_u32 (v : UInt32) : Reads u32 (littleEndian 4 v.toNat) v := by
  have := (reads_number 4 v.toNat v.toNat_lt).map UInt32.ofNat
  rw [UInt32.ofNat_toNat] at this
  exact this

theorem reads_i32 (v : Int32) : Reads i32 (littleEndian 4 v.toUInt32.toNat) v := by
  have := (reads_u32 v.toUInt32).map UInt32.toInt32
  rw [Int32.toInt32_toUInt32] at this
  exact this

theorem reads_u64 (v : UInt64) : Reads u64 (littleEndian 8 v.toNat) v := by
  have := (reads_number 8 v.toNat v.toNat_lt).map UInt64.ofNat
  rw [UInt64.ofNat_toNat] at this
  exact this

theorem reads_bytes (v : List UInt8) (h : v.length < UInt32.size)
    : Reads bytes (littleEndian 4 v.length ++ v) v :=
  (reads_number 4 v.length h).bind (reads_take v)

theorem length_toUTF8 (s : String) : s.toUTF8.data.toList.length = s.utf8ByteSize := by
  rw [Array.length_toList]
  rfl

theorem fromUTF8?_toUTF8 (s : String)
    : String.fromUTF8? s.toUTF8.data.toList.toByteArray = some s := by
  have : s.toUTF8.data.toList.toByteArray = s.toByteArray := by
    apply ByteArray.ext
    rw [List.data_toByteArray]
    rfl
  rw [this]
  unfold String.fromUTF8?
  rw [dif_pos s.isValidUTF8]
  rfl

theorem reads_text (s : String) (h : s.utf8ByteSize < UInt32.size)
    : Reads text (Item.textBytes s) s := by
  intro rest
  unfold text Item.textBytes
  rw [← length_toUTF8 s, (reads_bytes _ (by rw [length_toUTF8]; exact h)).on_bind]
  rw [fromUTF8?_toUTF8]
  rfl

theorem reads_times (r : Reader α) (bytes : α → List UInt8) (l : List α)
    (h : ∀ a ∈ l, Reads r (bytes a) a)
    : Reads (times r l.length) (Item.concat bytes l) l := by
  induction l with
  | nil => apply Reads.pure
  | cons a l ih =>
    have hl := ih fun b hb => h b (List.mem_cons_of_mem a hb)
    exact (h a List.mem_cons_self).bind (hl.map (a :: ·))

theorem four_mul_length_le_concat (l : List String)
    : 4 * l.length ≤ (Item.concat Item.textBytes l).length := by
  induction l with
  | nil => simp
  | cons s l ih =>
    have : (Item.concat Item.textBytes (s :: l)).length
        = (Item.textBytes s).length + (Item.concat Item.textBytes l).length :=
      List.length_append
    have : 4 ≤ (Item.textBytes s).length := by simp [Item.textBytes]
    rw [List.length_cons]
    omega

theorem reads_texts (l : List String) (hl : l.length < UInt32.size)
    (h : ∀ s ∈ l, s.utf8ByteSize < UInt32.size)
    : Reads texts (littleEndian 4 l.length ++ Item.concat Item.textBytes l) l := by
  intro rest
  unfold texts
  rw [List.append_assoc, (reads_number 4 l.length hl).on_bind, on_bind, on_get]
  dsimp only
  -- The count is met, as each text takes at least the four bytes of its length.
  have := four_mul_length_le_concat l
  rw [if_neg (by rw [List.length_append]; omega)]
  apply reads_times
  intro s hs
  apply reads_text
  exact h s hs

theorem reads_option (r : Reader α) (bytes : α → List UInt8) (o : Option α)
    (h : ∀ a ∈ o, Reads r (bytes a) a)
    : Reads (option r) (Item.optionBytes bytes o) o := by
  cases o with
  | none => exact (reads_bool false).bind (Reads.pure none)
  | some a => exact (reads_bool true).bind ((h a rfl).map some)

theorem reads_duration (d : Duration) : Reads duration (Item.durationBytes d) d := by
  intro rest
  unfold duration Item.durationBytes
  have hsecs := d.secs_lt
  have hnanos := d.subsecNanos_lt
  rw [List.append_assoc]
  have h64 := reads_u64 (.ofNat d.secs)
  rw [UInt64.toNat_ofNat_of_lt' hsecs] at h64
  have h32 := reads_u32 (.ofNat d.subsecNanos)
  have hsize : d.subsecNanos < UInt32.size := Nat.lt_trans hnanos (by decide)
  rw [UInt32.toNat_ofNat_of_lt' hsize] at h32
  rw [h64.on_bind, h32.on_bind]
  rw [dif_pos (by rw [UInt32.toNat_ofNat_of_lt' hsize]; exact hnanos)]
  rw [on_pure]
  simp only [Duration.ofParts, UInt64.toNat_ofNat_of_lt' hsecs, UInt32.toNat_ofNat_of_lt' hsize]
  simp only [Duration.secs, Duration.subsecNanos, Nat.div_add_mod']

theorem finish_nil : finish.on [] = (.ok (), []) := rfl

end Reader
end Enclosure
