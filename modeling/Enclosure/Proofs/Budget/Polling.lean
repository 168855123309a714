import Enclosure.Budget.Polling
import Enclosure.Proofs.Budget

/-!
This module contains what polling guarantees about a limit on processor time, however the time is
used: nothing is killed before it has used its limit up, and nothing uses much more than that before
it is killed.
-/

namespace Enclosure.CpuBudget

/-- What a group has used at each moment. It never becomes less, and no more than `parallelism`
processors add to it at once. -/
structure UsageCurve (parallelism : Nat) (start : Duration) (usage : Nat → Duration) : Prop where
  start : usage 0 = start
  mono : ∀ s t, s ≤ t → (usage s).ns ≤ (usage t).ns
  rate : ∀ s t, s ≤ t → (usage t).ns - (usage s).ns ≤ parallelism * (t - s)

theorem UsageCurve.usage_add_le {parallelism : Nat} {start : Duration} {usage : Nat → Duration}
    (h : UsageCurve parallelism start usage) (t d : Nat)
    : (usage (t + d)).ns ≤ (usage t).ns + parallelism * d := by
  have := h.rate t (t + d) (Nat.le_add_right t d)
  rw [Nat.add_sub_cancel_left] at this
  omega

variable {b : CpuBudget} {start : Duration} {usage : Nat → Duration}

theorem pollAt?_succ_eq_some_iff {n t' : Nat}
    : b.pollAt? start usage (n + 1) = some t'
        ↔
      ∃ t d,
        b.pollAt? start usage n = some t ∧ b.check (usage t) = .rearm d ∧ t + d.ns = t' := by
  rw [pollAt?, Option.bind_eq_bind, Option.bind_eq_some_iff]
  refine exists_congr fun t => ?_
  cases b.check (usage t) with
  | kill => simp
  | rearm d => simp

theorem exists_kill_of_pollAt?_eq_none {n : Nat} (h : b.pollAt? start usage n = none)
    : ∃ m t, b.pollAt? start usage m = some t ∧ b.check (usage t) = .kill := by
  induction n with
  | zero => contradiction
  | succ n ih =>
    cases hpoll : b.pollAt? start usage n with
    | none => exact ih hpoll
    | some t =>
      refine ⟨n, t, hpoll, ?_⟩
      rw [pollAt?, hpoll] at h
      cases hcheck : b.check (usage t) with
      | kill => rfl
      | rearm d => simp [hcheck] at h

section Spacing

variable (hend : b.endMicros ≤ wordMax)
include hend

theorem minRearm_le_of_check {d : Duration} {t : Nat} (h : b.check (usage t) = .rearm d)
    : minRearm ≤ d.ns := by
  obtain ⟨hkill, _⟩ | ⟨hrearm, _⟩ := check_cases hend (usage t)
  . rw [hkill] at h
    contradiction
  . rw [hrearm] at h
    cases h
    exact b.floor_le_delay (usage t).micros (by decide)

theorem pollAt?_spaced {n t t' : Nat} (h : b.pollAt? start usage n = some t)
    (h' : b.pollAt? start usage (n + 1) = some t')
    : t + minRearm ≤ t' := by
  obtain ⟨s, d, hs, hcheck, rfl⟩ := pollAt?_succ_eq_some_iff.mp h'
  rw [h, Option.some.injEq] at hs
  rw [← hs] at hcheck ⊢
  exact Nat.add_le_add_left (minRearm_le_of_check hend hcheck) t

theorem mul_minRearm_lt_of_pollAt? {n t : Nat} (h : b.pollAt? start usage n = some t)
    : n * minRearm < t := by
  induction n generalizing t with
  | zero =>
    cases h
    rw [Nat.zero_mul]
    exact b.floor_le_delay start.microsUp (by decide)
  | succ n ih =>
    obtain ⟨s, d, hs, hcheck, rfl⟩ := pollAt?_succ_eq_some_iff.mp h
    have := ih hs
    have := minRearm_le_of_check hend hcheck
    rw [Nat.succ_mul]
    omega

theorem exists_pollAt?_of_not_killed {t : Nat}
    (h : ∀ m s, b.pollAt? start usage m = some s → b.check (usage s) = .kill → t ≤ s)
    : ∃ n s, b.pollAt? start usage n = some s ∧ t ≤ s := by
  cases hpoll : b.pollAt? start usage t with
  | none =>
    obtain ⟨m, s, hs, hkill⟩ := exists_kill_of_pollAt?_eq_none hpoll
    exact ⟨m, s, hs, h m s hs hkill⟩
  | some s =>
    refine ⟨t, s, hpoll, ?_⟩
    have := mul_minRearm_lt_of_pollAt? hend hpoll
    unfold minRearm at this
    omega

end Spacing

section Usage

variable (hcurve : UsageCurve b.parallelism start usage) (hpos : 0 < b.parallelism)
include hcurve hpos

theorem usage_firstArm_lt (hstart : start.ceilMicros ≤ b.endMicros) (hend : b.endMicros ≤ wordMax)
    : (usage (b.firstArm start).ns).ns < b.endMicros * 1000 + b.parallelism * minRearm := by
  have hup : start.microsUp = start.ceilMicros := Duration.microsUp_eq (by omega)
  have hfirst := hcurve.usage_add_le 0 (b.firstArm start).ns
  rw [Nat.zero_add, hcurve.start] at hfirst
  have hfloor : minFirstArm ≤ wordMax := by decide
  have hdelay := b.parallelism_mul_delay_le start.microsUp hfloor
  change b.parallelism * (b.firstArm start).ns ≤ _ at hdelay
  rw [hup] at hdelay
  have := start.ns_le_ceilMicros
  unfold minFirstArm at hdelay
  unfold minRearm
  omega

theorem usage_rearm_lt (hend : b.endMicros ≤ wordMax) {t : Nat} {d : Duration}
    (h : b.check (usage t) = .rearm d)
    : (usage (t + d.ns)).ns < b.endMicros * 1000 + b.parallelism * minRearm := by
  obtain ⟨hkill, _⟩ | ⟨hrearm, hused⟩ := check_cases hend (usage t)
  . rw [hkill] at h
    contradiction
  . rw [hrearm, Check.rearm.injEq] at h
    have hfloor : minRearm ≤ wordMax := by decide
    have hdelay := b.parallelism_mul_delay_le (usage t).micros hfloor
    rw [h] at hdelay
    have hlater := hcurve.usage_add_le t d.ns
    unfold Duration.micros at hused hdelay
    unfold minRearm at hdelay ⊢
    omega

theorem usage_pollAt?_lt (hstart : start.ceilMicros ≤ b.endMicros) (hend : b.endMicros ≤ wordMax)
    {n t : Nat} (h : b.pollAt? start usage n = some t)
    : (usage t).ns < b.endMicros * 1000 + b.parallelism * minRearm := by
  cases n with
  | zero =>
    cases h
    exact usage_firstArm_lt hcurve hpos hstart hend
  | succ n =>
    obtain ⟨s, d, _, hcheck, rfl⟩ := pollAt?_succ_eq_some_iff.mp h
    exact usage_rearm_lt hcurve hpos hend hcheck

end Usage

/-- However a group uses its time, on as many processors as are counted with, a poll that kills
finds the limit used up, and until then no more is used than the limit, what the processors use
between two polls, and what rounding adds. Polls after the first are at least a millisecond apart,
so that not many of them fit into any time. -/
theorem kill_after_limit_and_usage_lt (start limit : Duration) (parallelism : UInt32)
    (usage : Nat → Duration) (hcurve : UsageCurve (max 1 parallelism.toNat) start usage)
    (hend : start.ceilMicros + limit.ceilMicros < wordMax)
    : let b := ofLimit start limit parallelism
      let p := max 1 parallelism.toNat
      (∀ n t, b.pollAt? start usage n = some t → b.check (usage t) = .kill →
          start.ns + limit.ns ≤ (usage t).ns)
        ∧ (∀ n t, b.pollAt? start usage n = some t →
            (usage t).ns < (start.ceilMicros + limit.ceilMicros) * 1000 + p * 1000000
              ∧ (usage t).ns < start.ns + limit.ns + p * 1000000 + 2000)
        ∧ (∀ t, (∀ n s, b.pollAt? start usage n = some s → b.check (usage s) = .kill → t ≤ s) →
            (usage t).ns < start.ns + limit.ns + p * 1000000 + 2000)
        ∧ (∀ n t t', b.pollAt? start usage n = some t → b.pollAt? start usage (n + 1) = some t' →
            t + 1000000 ≤ t')
        ∧ ∀ n t T, b.pollAt? start usage n = some t → t ≤ T → n < T / 1000000 + 1 := by
  intro b p
  have hpos : 0 < b.parallelism := parallelism_pos start limit parallelism
  have hle : b.endMicros ≤ wordMax := endMicros_le start limit parallelism
  have hmicros : b.endMicros = start.ceilMicros + limit.ceilMicros :=
    endMicros_ofLimit parallelism hend
  have hpoll (n t : Nat) (h : b.pollAt? start usage n = some t)
      : (usage t).ns < (start.ceilMicros + limit.ceilMicros) * 1000 + p * 1000000 := by
    rw [← hmicros]
    exact usage_pollAt?_lt hcurve hpos (by omega) hle h
  have hround := start.ceilMicros_add_lt limit
  refine ⟨?_, ?_, ?_, ?_, ?_⟩
  . intro n t _ hkill
    obtain ⟨_, hused⟩ | ⟨hrearm, _⟩ := check_cases hle (usage t)
    . rw [hmicros] at hused
      unfold Duration.micros at hused
      have := start.ns_le_ceilMicros
      have := limit.ns_le_ceilMicros
      omega
    . rw [hkill] at hrearm
      contradiction
  . intro n t h
    have := hpoll n t h
    exact ⟨this, by omega⟩
  . intro t hkilled
    obtain ⟨n, s, hs, hts⟩ := exists_pollAt?_of_not_killed hle hkilled
    have := hpoll n s hs
    have := hcurve.mono t s hts
    omega
  . intro n t t' h h'
    have := pollAt?_spaced hle h h'
    unfold minRearm at this
    exact this
  . intro n t T h ht
    have := mul_minRearm_lt_of_pollAt? hle h
    unfold minRearm at this
    omega

-- Two processors are kept busy for twenty milliseconds each.
def busy (t : Nat) : Duration :=
  ⟨1500 + min (2 * t) 40000000, by unfold UInt64.size; omega⟩

theorem kill_after_limit_and_usage_lt_of_busy
    : let b := ofLimit (.ofNanos 1500) (.ofMillis 10) 2
      UsageCurve 2 (.ofNanos 1500) busy
        ∧ b.pollAt? (.ofNanos 1500) busy 0 = some 5000000
        ∧ b.pollAt? (.ofNanos 1500) busy 1 = some 6000000
        ∧ b.check (busy 6000000) = .kill
        ∧ 10001500 ≤ (busy 6000000).ns
        ∧ (busy 6000000).ns < 12003500 := by
  intro b
  have hcurve : UsageCurve 2 (.ofNanos 1500) busy := by
    constructor
    case start => rfl
    case mono =>
      intro s t h
      unfold busy
      dsimp only
      omega
    case rate =>
      intro s t h
      unfold busy
      dsimp only
      omega
  have hfirst : b.pollAt? (.ofNanos 1500) busy 0 = some 5000000 := by decide
  have hsecond : b.pollAt? (.ofNanos 1500) busy 1 = some 6000000 := by decide
  have hkill : b.check (busy 6000000) = .kill := by decide
  obtain ⟨hlate, hsoon, _⟩ :=
    kill_after_limit_and_usage_lt (.ofNanos 1500) (.ofMillis 10) 2 busy hcurve (by decide)
  exact ⟨hcurve, hfirst, hsecond, hkill, hlate 1 _ hsecond hkill, (hsoon 1 _ hsecond).2⟩

end Enclosure.CpuBudget
