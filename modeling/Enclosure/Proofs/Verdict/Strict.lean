import Enclosure.ControlGroup.Content
import Enclosure.Outcome.Verdict
import Enclosure.Proofs.Reader.Strict
import Enclosure.Proofs.Verdict.RoundTrip

/-!
This module contains the strictness of reading verdicts: a body that is read as a verdict is byte
for byte the one that the verdict is written as. Together with the round trip this says which
bodies are accepted and what is read for them.
-/

namespace Enclosure

open Frame Reader

theorem StateChange.code_of_ofCode? {n : Int32} {c : StateChange} (h : ofCode? n = some c)
    : c.code = n := by
  unfold ofCode? at h
  grind [code]

theorem Duration.micros_ofMicros (us : UInt64) : (ofMicros us).micros = us.toNat := by
  unfold micros
  rw [ns_ofMicros, Nat.mul_div_cancel _ (by decide)]

namespace CpuTime

theorem fits_ofMicros (user system : UInt64) : Fits ⟨.ofMicros user, .ofMicros system⟩ := by
  unfold Fits
  rw [Duration.micros_ofMicros, Duration.micros_ofMicros]
  exact ⟨user.toNat_lt_size, system.toNat_lt_size⟩

theorem Fits.sub {t : CpuTime} (h : t.Fits) (start : CpuTime)
    : Fits ⟨t.user - start.user, t.system - start.system⟩ := by
  have hle (a b : Duration) : (a - b).micros ≤ a.micros := Nat.div_le_div_right (Nat.sub_le ..)
  exact ⟨Nat.lt_of_le_of_lt (hle ..) h.1, Nat.lt_of_le_of_lt (hle ..) h.2⟩

end CpuTime

theorem ControlGroup.fits_of_parseCpuStat {content : String} {cpu : CpuTime}
    (h : parseCpuStat content = .ok cpu)
    : cpu.Fits := by
  unfold parseCpuStat at h
  split at h
  . cases h
    apply CpuTime.fits_ofMicros
  . contradiction

theorem Outcome.cpuFits_verdict (outcome : Outcome) {usage : Usage} (h : usage.finalCpu.Fits)
    (initStatus : ProcessStatus)
    : (outcome.verdict usage initStatus).CpuFits := by
  unfold verdict
  split
  . trivial
  . trivial
  . trivial
  . apply h.sub

namespace Verdict

theorem strict_readStateChange
    : Strict readStateChange fun c => littleEndian 4 c.code.toUInt32.toNat := by
  apply strict_i32.bind
  intro code
  split
  . next c h =>
    apply Completes.pure
    rw [StateChange.code_of_ofCode? h]
    rfl
  . exact .throw _

theorem strict_readFields : Strict readFields body := by
  apply strict_u8.bind
  intro tag
  split
  . next htag =>
    apply strict_readStateChange.bind
    intro change
    apply strict_i32.bind
    intro value
    apply strict_duration.bind
    intro runtime
    iterate 3
      apply strict_u64.bind
      intro
    apply Completes.pure
    unfold body items
    simp only [Item.concat_cons, Item.concat_nil, Item.encode, Duration.micros_ofMicros,
      UInt64.ofNat_toNat, List.append_assoc, List.nil_append, List.append_nil, htag]
  . split
    . next htag =>
      apply (strict_text.behind _).map
      intro description
      unfold body items
      simp only [Item.concat_cons, Item.concat_nil, Item.encode, List.nil_append, List.append_nil,
        htag]
    . exact .throw _

theorem eq_body_of_decode {body : List UInt8} {v : Verdict} (h : decode body = .ok v)
    : body = v.body := by
  have hread : Strict read Verdict.body := by
    apply strict_readFields.bind
    intro v
    apply strict_finish.bind
    intro _
    exact .pure (List.append_nil _)
  have hend : Exhausts read := Exhausts.bind (fun v => exhausts_finish v) _
  have hon : read.on body = (.ok v, (read.on body).2) := Prod.ext h rfl
  have hbody : body = v.body ++ _ := hread body v _ hon
  rw [hend body v _ hon, List.append_nil] at hbody
  exact hbody

theorem check_items_of_length_body (v : Verdict) (h : v.body.length ≤ maxBody)
    : ∀ i ∈ v.items, i.check = .ok () := by
  unfold body at h
  rw [Item.length_concat Item.encode Item.size _ Item.length_encode] at h
  intro i hi
  apply i.check_of_size_lt
  have : maxBody < UInt32.size := by decide
  have := Item.size_le_totalSize Item.size hi
  omega

theorem encode_eq_ok (v : Verdict) (h : v.body.length ≤ maxBody)
    : v.encode = .ok (ofBody v.body) :=
  ofItems_eq_ok v.items (v.check_items_of_length_body h) h

theorem decode_body_append (v : Verdict) (h : v.body.length ≤ maxBody) (tail : List UInt8)
    : decode (v.body ++ tail)
        =
      if tail = [] then .ok v.onWire else .error (.trailingBytes tail.length) := by
  unfold decode read
  rw [(v.reads_fields (v.check_items_of_length_body h)).on_bind, on_bind, on_finish]
  by_cases htail : tail = []
  . rw [if_pos htail, if_pos htail]
    rfl
  . rw [if_neg htail, if_neg htail]

/-- A verdict whose processor times fit 64 bits in microseconds, as those in `cpu.stat` and what is
left of them after the start do, is read back as it is, without the nanoseconds beyond the last
whole microsecond. Nothing else is read: each body that is read as a verdict is the one that this
verdict is written as, and neither what is missing at its end nor what is added there goes
unnoticed. -/
theorem decode_body_and_encode_of_decode
    : (∀ v : Verdict, v.CpuFits → v.body.length ≤ maxBody →
        v.encode = .ok (ofBody v.body) ∧ decode v.body = .ok v.floorMicros)
        ∧ (∀ (content : String) (cpu : CpuTime), ControlGroup.parseCpuStat content = .ok cpu →
            ∀ (outcome : Outcome) (start : Option (Duration × CpuTime)) (endTime : Option Duration)
              (peakMemory : UInt64) (initStatus : ProcessStatus),
              (outcome.verdict ⟨start, endTime, cpu, peakMemory⟩ initStatus).CpuFits)
        ∧ ∀ (body : List UInt8) (v : Verdict), body.length ≤ maxBody → decode body = .ok v →
            v.encode = .ok (ofBody body)
              ∧ ∀ (tail : List UInt8) (w : Verdict), decode (body ++ tail) = .ok w → tail = [] := by
  refine ⟨?_, ?_, ?_⟩
  . intro v hcpu hsize
    have hdecode := v.decode_body_append hsize []
    rw [List.append_nil, if_pos rfl, v.onWire_eq_floorMicros hcpu] at hdecode
    exact ⟨v.encode_eq_ok hsize, hdecode⟩
  . intro content cpu hcpu outcome start endTime peakMemory initStatus
    apply outcome.cpuFits_verdict
    exact ControlGroup.fits_of_parseCpuStat hcpu
  . intro body v hsize h
    rw [eq_body_of_decode h] at hsize ⊢
    refine ⟨v.encode_eq_ok hsize, ?_⟩
    intro tail w hw
    rw [v.decode_body_append hsize] at hw
    split at hw
    . next htail => exact htail
    . contradiction

-- A program that was killed after 1999 nanoseconds in user mode.
def killedEarly : Verdict :=
  .ran (.killed .kill) ⟨.ofNanos 1999, .zero⟩ 7 (.ofNanos 2000000500)

-- What `killedEarly` is written as; its time in user mode is one microsecond.
def killedEarlyBody : List UInt8 :=
  [0, 2, 0, 0, 0, 9, 0, 0, 0, 2, 0, 0, 0, 0, 0, 0, 0, 244, 1, 0, 0]
    ++ [1, 0, 0, 0, 0, 0, 0, 0, 0, 0, 0, 0, 0, 0, 0, 0, 7, 0, 0, 0, 0, 0, 0, 0]

theorem decode_body_and_encode_of_decode_killedEarly
    : killedEarly.encode = .ok (ofBody killedEarlyBody)
        ∧ decode killedEarlyBody
          = .ok (.ran (.killed .kill) ⟨.ofMicros 1, .zero⟩ 7 (.ofNanos 2000000500))
        ∧ ((Outcome.ended (.exited 0)).verdict
            ⟨some (.zero, .zero), none, ⟨.ofMicros 5, .ofMicros 7⟩, 0⟩ (.exited 0)).CpuFits
        ∧ (failed "é").encode = .ok (ofBody [1, 2, 0, 0, 0, 195, 169])
        ∧ decode [1, 2, 0, 0, 0, 195, 169, 0] ≠ .ok (failed "é") := by
  obtain ⟨hforth, hcpu, hback⟩ := decode_body_and_encode_of_decode
  obtain ⟨hencode, hdecode⟩ := hforth killedEarly ⟨by decide, by decide⟩ (by decide)
  obtain ⟨hencode', htail⟩ := hback [1, 2, 0, 0, 0, 195, 169] (failed "é") (by decide) rfl
  refine ⟨hencode, hdecode, ?_, hencode', ?_⟩
  . exact hcpu "user_usec 5\nsystem_usec 7\n" _ rfl _ _ _ _ _
  . intro h
    exact absurd (htail [0] _ h) (by decide)

end Verdict
end Enclosure
