import Enclosure.Proofs.Frame
import Enclosure.Proofs.Reader

/-!
This module contains the strictness of readers: whatever a reader accepts are exactly the bytes that
stand for the value that it returns.
-/

namespace Enclosure

namespace Frame

theorem littleEndian_ofLittleEndian (bytes : List UInt8)
    : littleEndian bytes.length (ofLittleEndian bytes) = bytes := by
  induction bytes with
  | nil => rfl
  | cons b bytes ih =>
    have hb := b.toNat_lt
    have hlow : UInt8.ofNat (b.toNat + 256 * ofLittleEndian bytes) = b := by
      apply UInt8.toNat_inj.mp
      rw [UInt8.toNat_ofNat']
      omega
    have hhigh : (b.toNat + 256 * ofLittleEndian bytes) / 256 = ofLittleEndian bytes := by omega
    rw [List.length_cons, ofLittleEndian, littleEndian, hlow, hhigh, ih]

theorem littleEndian_mod (width n : Nat)
    : littleEndian width (n % Nat.pow 256 width) = littleEndian width n := by
  induction width generalizing n with
  | zero => rfl
  | succ width ih =>
    have hpow : Nat.pow 256 (width + 1) = 256 * Nat.pow 256 width := Nat.mul_comm _ _
    have hlow : UInt8.ofNat (n % Nat.pow 256 (width + 1)) = UInt8.ofNat n := by
      apply UInt8.toNat_inj.mp
      rw [UInt8.toNat_ofNat', UInt8.toNat_ofNat', hpow]
      exact Nat.mod_mul_right_mod n 256 _
    have hhigh : n % Nat.pow 256 (width + 1) / 256 = n / 256 % Nat.pow 256 width := by
      rw [hpow, Nat.mod_mul_right_div_self]
    rw [littleEndian, littleEndian, hlow, hhigh, ih]

end Frame

namespace Reader

open Enclosure.Frame

-- Behind `front`, the reader accepts only what completes the bytes that stand for its value.
def Completes (front : List UInt8) (r : Reader α) (bytes : α → List UInt8) : Prop :=
  ∀ body a rest, r.on body = (.ok a, rest) → front ++ body = bytes a ++ rest

def Strict (r : Reader α) (bytes : α → List UInt8) : Prop :=
  Completes [] r bytes

def Exhausts (r : Reader α) : Prop :=
  ∀ body a rest, r.on body = (.ok a, rest) → rest = []

namespace Completes

variable {front : List UInt8} {part : α → List UInt8} {bytes : β → List UInt8}

theorem pure {b : β} (h : front = bytes b) : Completes front (Pure.pure b) bytes := by
  intro body b' rest hon
  cases hon
  rw [h]

theorem throw (e : FrameError) : Completes front (MonadExcept.throw e : Reader β) bytes := by
  intro body b rest hon
  cases hon

theorem bind {r : Reader α} {f : α → Reader β} (h : Completes front r part)
    (h' : ∀ a, Completes (part a) (f a) bytes)
    : Completes front (r >>= f) bytes := by
  intro body b rest hon
  rw [on_bind] at hon
  split at hon
  . next a mid ha => rw [h body a mid ha, h' a mid b rest hon]
  . simp at hon

theorem map {r : Reader α} {f : α → β} (h : Completes front r part)
    (hbytes : ∀ a, part a = bytes (f a))
    : Completes front (f <$> r) bytes :=
  h.bind fun a => pure (hbytes a)

theorem get {f : List UInt8 → Reader β} (h : ∀ body, Completes front (f body) bytes)
    : Completes front (MonadState.get >>= f) bytes := by
  intro body b rest hon
  exact h body body b rest hon

end Completes

theorem Strict.behind {r : Reader α} {bytes : α → List UInt8} (h : Strict r bytes)
    (front : List UInt8)
    : Completes front r fun a => front ++ bytes a := by
  intro body a rest hon
  have : body = bytes a ++ rest := h body a rest hon
  rw [this, List.append_assoc]

theorem Strict.bind {r : Reader α} {part : α → List UInt8} {f : α → Reader β}
    {bytes : β → List UInt8} (h : Strict r part)
    (h' : ∀ a, Completes (front ++ part a) (f a) bytes)
    : Completes front (r >>= f) bytes :=
  (h.behind front).bind h'

theorem Exhausts.bind {f : α → Reader β} (h : ∀ a, Exhausts (f a)) (r : Reader α)
    : Exhausts (r >>= f) := by
  intro body b rest hon
  rw [on_bind] at hon
  split at hon
  . next a mid _ => exact h a mid b rest hon
  . simp at hon

theorem on_finish (body : List UInt8)
    : finish.on body
        =
      if body = [] then (.ok (), []) else (.error (.trailingBytes body.length), body) := by
  unfold finish
  rw [on_bind, on_get]
  dsimp only
  by_cases h : body = []
  . rw [if_neg (by simpa using h), if_pos h, h]
    rfl
  . rw [if_pos h, if_neg h]
    rfl

theorem strict_finish : Strict finish fun _ => [] := by
  intro body _ rest hon
  rw [on_finish] at hon
  split at hon
  . next h =>
    cases hon
    exact h
  . simp at hon

theorem exhausts_finish (a : α) : Exhausts (finish >>= fun _ => pure a) := by
  intro body a' rest hon
  rw [on_bind, on_finish] at hon
  by_cases h : body = []
  . rw [if_pos h] at hon
    cases hon
    rfl
  . rw [if_neg h] at hon
    simp at hon

theorem completes_take (front : Nat → List UInt8) (n : Nat)
    : Completes (front n) (take n) fun bytes => front bytes.length ++ bytes := by
  intro body bytes rest hon
  rw [on_take] at hon
  split at hon
  . simp at hon
  . next hlength =>
    cases hon
    have hn := List.length_take_of_le (Nat.le_of_not_lt hlength)
    simp only [hn, List.append_assoc, List.take_append_drop]

theorem strict_number (width : Nat) : Strict (number width) (littleEndian width) := by
  have htake : Strict (take width) fun bytes => littleEndian width (ofLittleEndian bytes) := by
    intro body bytes rest hon
    rw [on_take] at hon
    split at hon
    . simp at hon
    . next hlength =>
      cases hon
      have hbytes := littleEndian_ofLittleEndian (body.take width)
      rw [List.length_take_of_le (Nat.le_of_not_lt hlength)] at hbytes
      simp only [hbytes, List.take_append_drop, List.nil_append]
  exact htake.map fun _ => rfl

theorem strict_u8 : Strict u8 fun v => [v] :=
  (strict_number 1).map fun _ => rfl

theorem strict_u32 : Strict u32 fun v => littleEndian 4 v.toNat := by
  apply (strict_number 4).map
  intro n
  rw [UInt32.toNat_ofNat']
  exact (littleEndian_mod 4 n).symm

theorem strict_i32 : Strict i32 fun v => littleEndian 4 v.toUInt32.toNat :=
  strict_u32.map fun _ => rfl

theorem strict_u64 : Strict u64 fun v => littleEndian 8 v.toNat := by
  apply (strict_number 8).map
  intro n
  rw [UInt64.toNat_ofNat']
  exact (littleEndian_mod 8 n).symm

theorem strict_bool : Strict bool fun b => [Item.boolByte b] := by
  apply strict_u8.bind
  intro b
  split
  . next h => exact .pure (by rw [h]; rfl)
  . split
    . next h => exact .pure (by rw [h]; rfl)
    . exact .throw _

theorem strict_bytes : Strict bytes fun v => littleEndian 4 v.length ++ v :=
  (strict_number 4).bind (completes_take (littleEndian 4))

theorem toUTF8_of_fromUTF8? {bytes : List UInt8} {s : String}
    (h : String.fromUTF8? bytes.toByteArray = some s)
    : s.toUTF8.data.toList = bytes := by
  unfold String.fromUTF8? at h
  split at h
  . cases h
    exact congrArg Array.toList List.data_toByteArray
  . contradiction

theorem strict_text : Strict text Item.textBytes := by
  apply strict_bytes.bind
  intro bytes
  split
  . next s h =>
    apply Completes.pure
    have := toUTF8_of_fromUTF8? h
    unfold Item.textBytes
    rw [← length_toUTF8, this]
    rfl
  . exact .throw _

theorem completes_times {r : Reader α} {bytes : α → List UInt8} (h : Strict r bytes)
    (front : Nat → List UInt8) (n : Nat)
    : Completes (front n) (times r n) fun l => front l.length ++ Item.concat bytes l := by
  induction n generalizing front with
  | zero => exact .pure (List.append_nil _).symm
  | succ n ih =>
    apply h.bind
    intro a
    -- The elements behind the first one go on behind a front that has grown by it.
    have hrest := ih fun k => front (k + 1) ++ bytes a
    apply hrest.map
    intro l
    rw [List.length_cons, Item.concat_cons, List.append_assoc]

theorem strict_texts : Strict texts fun l =>
    littleEndian 4 l.length ++ Item.concat Item.textBytes l := by
  apply (strict_number 4).bind
  intro n
  apply Completes.get
  intro body
  split
  . exact .throw _
  . exact completes_times strict_text (littleEndian 4) n

theorem strict_option {r : Reader α} {bytes : α → List UInt8} (h : Strict r bytes)
    : Strict (option r) (Item.optionBytes bytes) := by
  apply strict_bool.bind
  intro b
  cases b with
  | false => exact .pure rfl
  | true => exact (h.behind _).map fun _ => rfl

theorem strict_duration : Strict duration Item.durationBytes := by
  apply strict_u64.bind
  intro secs
  apply strict_u32.bind
  intro nanos
  split
  . next h =>
    apply Completes.pure
    unfold Item.durationBytes Duration.secs Duration.subsecNanos Duration.ofParts
    have hsecs : (secs.toNat * 1000000000 + nanos.toNat) / 1000000000 = secs.toNat := by omega
    have hnanos : (secs.toNat * 1000000000 + nanos.toNat) % 1000000000 = nanos.toNat := by omega
    rw [hsecs, hnanos]
    rfl
  . exact .throw _

end Reader
end Enclosure
