import Enclosure.Frame.Verdict
import Enclosure.Proofs.Frame
import Enclosure.Proofs.Reader

/-!
This module contains the round trip of verdicts: a verdict that can be written as a frame is read
back as itself, apart from processor times, which travel in whole microseconds.
-/

namespace Enclosure

open Frame Reader

def Duration.floorMicros (d : Duration) : Duration :=
  ⟨d.ns / 1000 * 1000, by have := d.ns_lt; omega⟩

namespace CpuTime

def onWire (t : CpuTime) : CpuTime :=
  ⟨.ofMicros (.ofNat t.user.micros), .ofMicros (.ofNat t.system.micros)⟩

def floorMicros (t : CpuTime) : CpuTime :=
  ⟨t.user.floorMicros, t.system.floorMicros⟩

def Fits (t : CpuTime) : Prop :=
  t.user.micros < UInt64.size ∧ t.system.micros < UInt64.size

theorem ofMicros_micros (d : Duration) (h : d.micros < UInt64.size)
    : Duration.ofMicros (.ofNat d.micros) = d.floorMicros := by
  unfold Duration.ofMicros Duration.floorMicros
  simp only [UInt64.toNat_ofNat_of_lt' h]
  rfl

theorem onWire_eq_floorMicros (t : CpuTime) (h : t.Fits) : t.onWire = t.floorMicros := by
  unfold onWire floorMicros
  rw [ofMicros_micros t.user h.1, ofMicros_micros t.system h.2]

end CpuTime

namespace Verdict

def onWire : Verdict → Verdict
  | ran status cpu peakMemory runtime => ran status cpu.onWire peakMemory runtime
  | failed description => failed description

def floorMicros : Verdict → Verdict
  | ran status cpu peakMemory runtime => ran status cpu.floorMicros peakMemory runtime
  | failed description => failed description

def CpuFits : Verdict → Prop
  | ran _ cpu _ _ => cpu.Fits
  | failed _ => True

theorem onWire_eq_floorMicros (v : Verdict) (h : v.CpuFits) : v.onWire = v.floorMicros := by
  cases v with
  | ran status cpu peakMemory runtime =>
    change ran status cpu.onWire peakMemory runtime = ran status cpu.floorMicros peakMemory runtime
    rw [cpu.onWire_eq_floorMicros h]
  | failed description => rfl

def body (v : Verdict) : List UInt8 :=
  Item.concat Item.encode v.items

theorem reads_stateChange (c : StateChange)
    : Reads readStateChange (littleEndian 4 c.code.toUInt32.toNat) c := by
  intro rest
  unfold readStateChange
  rw [(reads_i32 c.code).on_bind, StateChange.ofCode?_code]
  rfl

theorem reads_fields (v : Verdict) (h : ∀ i ∈ v.items, i.check = .ok ())
    : Reads readFields v.body v.onWire := by
  intro rest
  unfold body readFields
  cases v with
  | ran status cpu peakMemory runtime =>
    simp only [items, Item.concat_cons, Item.concat_nil, Item.encode, List.append_assoc,
      List.nil_append]
    rw [(reads_u8 0).on_bind, if_pos rfl, (reads_stateChange status.change).on_bind,
      (reads_i32 status.value).on_bind, (reads_duration runtime).on_bind, (reads_u64 _).on_bind,
      (reads_u64 _).on_bind, (reads_u64 peakMemory).on_bind]
    rfl
  | failed description =>
    have hlength := (Item.check_text_iff description).mp (h _ (by simp [items]))
    simp only [items, Item.concat_cons, Item.concat_nil, Item.encode, List.append_assoc,
      List.nil_append]
    rw [(reads_u8 1).on_bind, if_neg (by decide), if_pos rfl,
      (reads_text description hlength).on_bind]
    rfl

theorem decode_of_encode {v : Verdict} {frame : List UInt8} (h : v.encode = .ok frame)
    : frame = ofBody v.body ∧ v.body.length ≤ maxBody ∧ decode v.body = .ok v.onWire := by
  unfold encode at h
  obtain ⟨n, hlarge⟩ | ⟨hcheck, hsize⟩ := ofItems_tooLarge_or_fits v.items
  . rw [hlarge] at h
    contradiction
  . rw [ofItems_eq_ok v.items hcheck hsize, Except.ok.injEq] at h
    refine ⟨h.symm, hsize, ?_⟩
    have hread : read.on v.body = (finish >>= fun _ => pure v.onWire).on [] := by
      have := (v.reads_fields hcheck).on_bind (fun v => finish >>= fun _ => pure v) []
      rw [List.append_nil] at this
      exact this
    unfold decode
    rw [hread, on_bind, finish_nil]
    rfl

theorem length_body_failed (description : String)
    : (failed description).body.length = description.utf8ByteSize + 5 := by
  unfold body
  rw [Item.length_concat Item.encode Item.size _ Item.length_encode]
  simp only [items, Item.totalSize, Item.size, Item.textSize, List.foldr]
  omega

theorem check_items_failed {description : String} (h : description.utf8ByteSize < UInt32.size)
    : ∀ i ∈ (failed description).items, i.check = .ok () := by
  simpa [items, Item.check_text_iff] using ⟨rfl, h⟩

theorem encode_failed (description : String) (h : description.utf8ByteSize + 5 ≤ maxBody)
    : (failed description).encode = .ok (ofBody (failed description).body) := by
  have hlength : description.utf8ByteSize < UInt32.size := by
    have : maxBody < UInt32.size := by decide
    omega
  apply ofItems_eq_ok _ (check_items_failed hlength)
  exact length_body_failed description ▸ h

theorem encode_failed_tooLarge (description : String) (h : description.utf8ByteSize < UInt32.size)
    (hsize : maxBody < description.utf8ByteSize + 5)
    : (failed description).encode = .error (.tooLarge (description.utf8ByteSize + 5)) := by
  have := ofItems_eq_tooLarge _ (check_items_failed h) (length_body_failed description ▸ hsize)
  rw [← length_body_failed]
  exact this

end Verdict
end Enclosure
