import Enclosure.Budget

/-!
This module contains what the arithmetic of a limit on processor time comes to without its
saturations: the count at which a budget is used up, when a poll kills, and how long it waits
otherwise.
-/

namespace Enclosure

theorem Duration.ns_ofNanos {ns : Nat} (h : ns < UInt64.size * 1000000000)
    : (ofNanos ns).ns = ns := by
  unfold ofNanos
  rw [dif_pos h]

def Duration.ceilMicros (d : Duration) : Nat :=
  (d.ns + 999) / 1000

theorem Duration.ns_le_ceilMicros (d : Duration) : d.ns ≤ d.ceilMicros * 1000 := by
  unfold ceilMicros
  omega

theorem Duration.ceilMicros_lt (d : Duration) : d.ceilMicros * 1000 < d.ns + 1000 := by
  unfold ceilMicros
  omega

theorem Duration.ceilMicros_add_lt (d e : Duration)
    : (d.ceilMicros + e.ceilMicros) * 1000 < d.ns + e.ns + 2000 := by
  calc (d.ceilMicros + e.ceilMicros) * 1000
    _ = d.ceilMicros * 1000 + e.ceilMicros * 1000 := Nat.add_mul ..
    _ < d.ns + 1000 + (e.ns + 1000) := Nat.add_lt_add d.ceilMicros_lt e.ceilMicros_lt
    _ = d.ns + e.ns + 2000 := Nat.add_add_add_comm ..

theorem Duration.ceilMicros_eq (d : Duration)
    : d.ceilMicros = d.secs * 1000000 + (d.subsecNanos + 999) / 1000 := by
  unfold ceilMicros secs subsecNanos
  omega

theorem Duration.microsUp_eq_min (d : Duration) : d.microsUp = min wordMax d.ceilMicros := by
  rw [ceilMicros_eq]
  unfold microsUp
  omega

theorem Duration.microsUp_eq {d : Duration} (h : d.ceilMicros ≤ wordMax)
    : d.microsUp = d.ceilMicros := by
  rw [microsUp_eq_min, Nat.min_eq_right h]

namespace CpuBudget

theorem parallelism_pos (start limit : Duration) (parallelism : UInt32)
    : 0 < (ofLimit start limit parallelism).parallelism :=
  Nat.lt_of_lt_of_le Nat.zero_lt_one (Nat.le_max_left ..)

theorem endMicros_le (start limit : Duration) (parallelism : UInt32)
    : (ofLimit start limit parallelism).endMicros ≤ wordMax :=
  Nat.min_le_left ..

theorem endMicros_ofLimit {start limit : Duration} (parallelism : UInt32)
    (h : start.ceilMicros + limit.ceilMicros < wordMax)
    : (ofLimit start limit parallelism).endMicros = start.ceilMicros + limit.ceilMicros := by
  have hstart : start.microsUp = start.ceilMicros := Duration.microsUp_eq (by omega)
  have hlimit : limit.microsUp = limit.ceilMicros := Duration.microsUp_eq (by omega)
  unfold ofLimit
  rw [hstart, hlimit]
  exact Nat.min_eq_right (Nat.le_of_lt h)

variable (b : CpuBudget)

theorem ns_delay (used : Nat) {floor : Nat} (h : floor ≤ wordMax)
    : (b.delay used floor).ns
        =
      max floor (min wordMax ((b.endMicros - used) * 1000 / b.parallelism)) := by
  apply Duration.ns_ofNanos
  have : wordMax < UInt64.size * 1000000000 := by decide
  omega

theorem floor_le_delay (used : Nat) {floor : Nat} (h : floor ≤ wordMax)
    : floor ≤ (b.delay used floor).ns := by
  rw [b.ns_delay used h]
  apply Nat.le_max_left

theorem parallelism_mul_delay_le (used : Nat) {floor : Nat} (h : floor ≤ wordMax)
    : b.parallelism * (b.delay used floor).ns
        ≤
      max (b.parallelism * floor) ((b.endMicros - used) * 1000) := by
  have hrest : b.parallelism * ((b.endMicros - used) * 1000 / b.parallelism)
      ≤ (b.endMicros - used) * 1000 :=
    Nat.mul_div_le ..
  have hcut : b.parallelism * min wordMax ((b.endMicros - used) * 1000 / b.parallelism)
      ≤ (b.endMicros - used) * 1000 :=
    Nat.le_trans (Nat.mul_le_mul_left _ (Nat.min_le_right ..)) hrest
  rw [b.ns_delay used h, ← Nat.mul_max_mul_left]
  omega

theorem check_cases {b : CpuBudget} (h : b.endMicros ≤ wordMax) (usage : Duration)
    : (b.check usage = .kill ∧ b.endMicros ≤ usage.micros)
        ∨
      (b.check usage = .rearm (b.delay usage.micros minRearm) ∧ usage.micros < b.endMicros) := by
  unfold check
  dsimp only
  split
  . next hused => exact .inl ⟨rfl, by omega⟩
  . next hleft =>
    rw [Nat.min_eq_right (by omega)]
    exact .inr ⟨rfl, by omega⟩

end CpuBudget
end Enclosure
