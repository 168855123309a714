import Mathlib.Algebra.Group.Nat.Defs
import Enclosure.Proofs.Budget

/-!
This module contains the arithmetic of a limit on processor time for all spans of time, the longest
ones included: however often counts are cut off on the way, the results are those of exact
arithmetic that is cut off once.
-/

namespace Enclosure

theorem maxParallelism_bounds (processes : Option UInt32) (available : UInt64)
    : 1 ≤ maxParallelism processes available
        ∧ maxParallelism processes available ≤ max 1 available.toNat
        ∧ maxParallelism processes available < UInt32.size
        ∧ ∀ n ∈ processes, maxParallelism processes available ≤ max 1 n.toNat := by
  have hsize : 1 < UInt32.size := by decide
  unfold maxParallelism
  cases processes with
  | none =>
    simp only [Option.not_mem_none, false_implies, implies_true, and_true]
    omega
  | some n =>
    simp only [Option.mem_some_iff, forall_eq']
    omega

namespace CpuBudget

theorem endMicros_ofLimit_eq_min (start limit : Duration) (parallelism : UInt32)
    : (ofLimit start limit parallelism).endMicros
        = min wordMax (start.ceilMicros + limit.ceilMicros) := by
  change min wordMax (start.microsUp + limit.microsUp) = _
  rw [start.microsUp_eq_min, limit.microsUp_eq_min]
  omega

theorem sub_microsUp {n : Nat} (h : n ≤ wordMax) (d : Duration)
    : n - d.microsUp = n - d.ceilMicros := by
  rw [d.microsUp_eq_min]
  omega

variable {b b' : CpuBudget}

theorem check_eq_kill_iff {usage : Duration}
    : b.check usage = .kill ↔ b.endMicros ≤ min wordMax usage.micros := by
  unfold check
  dsimp only
  split
  . next hused => simp [hused]
  . next hleft => simp [hleft]

theorem check_eq_rearm_iff (h : b.endMicros ≤ wordMax) {usage d : Duration}
    : b.check usage = .rearm d
        ↔
      usage.micros < b.endMicros ∧ d = b.delay usage.micros minRearm := by
  obtain ⟨hcheck, hused⟩ | ⟨hcheck, hused⟩ := check_cases h usage
  . rw [hcheck]
    simp [Nat.not_lt.mpr hused]
  . rw [hcheck]
    simp [hused, eq_comm]

theorem exists_rearm_of_check (h : b.endMicros ≤ wordMax) {usage : Duration}
    (hkill : b.check usage ≠ .kill)
    : ∃ d,
        b.check usage = .rearm d
          ∧ d.ns = max 1000000
              (min wordMax ((b.endMicros - usage.micros) * 1000 / b.parallelism)) := by
  obtain ⟨hcheck, _⟩ | ⟨hcheck, _⟩ := check_cases h usage
  . contradiction
  . exact ⟨_, hcheck, b.ns_delay usage.micros (by decide)⟩

theorem ns_firstArm (h : b.endMicros ≤ wordMax) (s : Duration)
    : (b.firstArm s).ns
        = max 1 (min wordMax ((b.endMicros - s.ceilMicros) * 1000 / b.parallelism)) := by
  have hfloor : minFirstArm ≤ wordMax := by decide
  rw [firstArm, b.ns_delay s.microsUp hfloor, sub_microsUp h]
  rfl

section Anti

variable (hend : b'.endMicros = b.endMicros) (hpos : 0 < b.parallelism)
  (hparallelism : b.parallelism ≤ b'.parallelism)
include hend hpos hparallelism

theorem delay_anti {used used' : Nat} (hused : used ≤ used') {floor : Nat}
    (hfloor : floor ≤ wordMax)
    : (b'.delay used' floor).ns ≤ (b.delay used floor).ns := by
  have hrest : (b'.endMicros - used') * 1000 ≤ (b.endMicros - used) * 1000 := by omega
  have hshare := Nat.div_le_div hrest hparallelism (Nat.ne_of_gt hpos)
  rw [b.ns_delay used hfloor, b'.ns_delay used' hfloor]
  omega

variable {usage usage' : Duration} (husage : usage.ns ≤ usage'.ns)
include husage

theorem firstArm_anti : (b'.firstArm usage').ns ≤ (b.firstArm usage).ns := by
  refine delay_anti hend hpos hparallelism ?_ (by decide)
  rw [usage.microsUp_eq_min, usage'.microsUp_eq_min]
  unfold Duration.ceilMicros
  omega

theorem rearm_anti (h : b.endMicros ≤ wordMax) {d' : Duration}
    (hcheck : b'.check usage' = .rearm d')
    : ∃ d, b.check usage = .rearm d ∧ d'.ns ≤ d.ns := by
  have hmicros : usage.micros ≤ usage'.micros := Nat.div_le_div_right husage
  obtain ⟨hused, rfl⟩ := (check_eq_rearm_iff (hend ▸ h)).mp hcheck
  have hleft : usage.micros < b.endMicros := by omega
  refine ⟨_, (check_eq_rearm_iff h).mpr ⟨hleft, rfl⟩, ?_⟩
  exact delay_anti hend hpos hparallelism hmicros (by decide)

end Anti

/-- For all spans of time, however long, the counts and the waits of a limit are those of exact
arithmetic, cut off once at the largest 64-bit number. The product fits 128 bits and nothing is
divided by zero, and with more processors or more time used no wait becomes longer. -/
theorem exact_and_clamped_once (start limit : Duration) (parallelism : UInt32)
    : let b := ofLimit start limit parallelism
      let p := max 1 parallelism.toNat
      let deadline := min wordMax (start.ceilMicros + limit.ceilMicros)
      (∀ d : Duration, d.microsUp = min wordMax d.ceilMicros)
        ∧ b.endMicros = deadline
        ∧ (∀ usage, b.check usage = .kill ↔ deadline ≤ min wordMax usage.micros)
        ∧ (∀ usage, b.check usage ≠ .kill → ∃ d,
            b.check usage = .rearm d
              ∧ d.ns = max 1000000 (min wordMax ((deadline - usage.micros) * 1000 / p)))
        ∧ (∀ s,
            (b.firstArm s).ns = max 1 (min wordMax ((deadline - s.ceilMicros) * 1000 / p)))
        ∧ (∀ used, (b.endMicros - used) * 1000 < 2 ^ 128)
        ∧ b.parallelism ≠ 0
        ∧ (∀ processes available,
            1 ≤ maxParallelism processes available
              ∧ maxParallelism processes available ≤ max 1 available.toNat
              ∧ maxParallelism processes available < UInt32.size
              ∧ ∀ n ∈ processes, maxParallelism processes available ≤ max 1 n.toNat)
        ∧ ∀ parallelism' usage usage', parallelism ≤ parallelism' → usage.ns ≤ usage'.ns →
            let b' := ofLimit start limit parallelism'
            (b'.firstArm usage').ns ≤ (b.firstArm usage).ns
              ∧ ∀ d', b'.check usage' = .rearm d' → ∃ d,
                  b.check usage = .rearm d ∧ d'.ns ≤ d.ns := by
  intro b p deadline
  have hpos : 0 < b.parallelism := parallelism_pos start limit parallelism
  have hle : b.endMicros ≤ wordMax := endMicros_le start limit parallelism
  have hmicros : b.endMicros = deadline := endMicros_ofLimit_eq_min start limit parallelism
  refine ⟨Duration.microsUp_eq_min, hmicros, ?_, ?_, ?_, ?_, Nat.ne_of_gt hpos,
    maxParallelism_bounds, ?_⟩
  . intro usage
    rw [check_eq_kill_iff, hmicros]
  . intro usage hkill
    rw [← hmicros]
    exact exists_rearm_of_check hle hkill
  . intro s
    rw [← hmicros]
    exact ns_firstArm hle s
  . intro used
    unfold wordMax UInt64.size at hle
    omega
  . intro parallelism' usage usage' hparallelism husage b'
    have hend : b'.endMicros = b.endMicros := rfl
    have hmore : b.parallelism ≤ b'.parallelism := by
      have := UInt32.le_iff_toNat_le.mp hparallelism
      change max 1 parallelism.toNat ≤ max 1 parallelism'.toNat
      omega
    exact ⟨firstArm_anti hend hpos hmore husage, fun d' => rearm_anti hend hpos hmore husage hle⟩

theorem exact_and_clamped_once_of_longest
    : let b := ofLimit .longest .longest 0
      b.endMicros = wordMax
        ∧ b.check .longest = .kill
        ∧ (∃ d, b.check .zero = .rearm d ∧ d.ns = wordMax)
        ∧ (∃ d, b.check (.ofMicros 0xfffffffffffffffe) = .rearm d ∧ d.ns = 1000000)
        ∧ (b.firstArm .longest).ns = 1 := by
  intro b
  obtain ⟨_, hend, hkill, hrearm, hfirst, _⟩ := exact_and_clamped_once .longest .longest 0
  obtain ⟨d, hzero, hwait⟩ := hrearm .zero (by decide)
  obtain ⟨d', hlast, hwait'⟩ := hrearm (.ofMicros 0xfffffffffffffffe) (by decide)
  refine ⟨hend.trans ?_, (hkill .longest).mpr ?_, ⟨d, hzero, hwait.trans ?_⟩,
    ⟨d', hlast, hwait'.trans ?_⟩, (hfirst .longest).trans ?_⟩
  all_goals decide

end CpuBudget

end Enclosure
