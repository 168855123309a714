import Enclosure.Proofs.ControlGroup.Content
import Enclosure.Proofs.Outcome.FirstClaim

/-!
This module contains the account of an enclosure from `cpu.stat` to the client. Nothing is lost on
the way as long as no number is too large for the page, and only an enclosure whose status and start
are on the page has an account.
-/

namespace Enclosure

open Outcome

namespace Verdict

theorem length_body_ran (status : ProcessStatus) (cpu : CpuTime) (peakMemory : UInt64)
    (runtime : Duration)
    : (ran status cpu peakMemory runtime).body.length = 45 := by
  unfold body
  rw [Item.length_concat Item.encode Item.size _ Item.length_encode]
  rfl

theorem exists_encode_decode_ran (status : ProcessStatus) {cpu : CpuTime} {user system : Nat}
    (peakMemory : UInt64) (runtime : Duration) (h : cpu.IsMicros user system)
    (huser : user < UInt64.size) (hsystem : system < UInt64.size)
    : ∃ frame,
        (ran status cpu peakMemory runtime).encode = .ok frame
          ∧ decode (frame.drop Frame.lengthSize) = .ok (ran status cpu peakMemory runtime) := by
  have hsize : (ran status cpu peakMemory runtime).body.length ≤ Frame.maxBody := by
    rw [length_body_ran]
    decide
  have hfits : cpu.Fits := by
    unfold CpuTime.Fits
    rw [h.micros.1, h.micros.2]
    exact ⟨huser, hsystem⟩
  refine ⟨_, encode_eq_ok _ hsize, ?_⟩
  obtain ⟨_, _, hdecode⟩ := decode_of_encode (encode_eq_ok _ hsize)
  rw [Frame.drop_ofBody, hdecode]
  change Except.ok (ran status cpu.onWire peakMemory runtime) = _
  rw [cpu.onWire_eq_floorMicros hfits, h.floorMicros_eq]

end Verdict

namespace Outcome

open Page

theorem verdict_cases (outcome : Outcome) (usage : Usage) (initStatus : ProcessStatus)
    : (∃ description, outcome.verdict usage initStatus = .failed description)
        ∨
      ∃ status,
        outcome = .ended status
          ∧ usage.start.isSome
          ∧ (outcome.verdict usage initStatus).status? = some status := by
  unfold verdict
  split
  . exact .inl ⟨_, rfl⟩
  . exact .inl ⟨_, rfl⟩
  . exact .inl ⟨_, rfl⟩
  . next status _ _ h =>
    rw [h]
    exact .inr ⟨status, rfl, rfl, rfl⟩

theorem isRan_verdict_iff (outcome : Outcome) (usage : Usage) (initStatus : ProcessStatus)
    : (outcome.verdict usage initStatus).isRan
        ↔
      ∃ status, outcome = .ended status ∧ usage.start.isSome := by
  unfold verdict
  split
  . simp [Verdict.isRan]
  . simp [Verdict.isRan]
  . next h => simp [Verdict.isRan, h]
  . next h => simp [Verdict.isRan, h]

section Records

structure Page.Shows (p : Page) (startTime : Duration) (startCpu : CpuTime) (endTime : Duration)
    (status : ProcessStatus) : Prop where
  outcome : p.outcome = .ended status
  start : p.start = some (startTime, startCpu)
  endTime : p.endTime = some endTime

variable {startTime endTime : Duration} {startCpu : CpuTime} {user system : Nat}

theorem exists_shows (hstart : StartFits startTime startCpu) (hend : endTime.ns + 1 < UInt64.size)
    (hcpu : startCpu.IsMicros user system) (status : ProcessStatus)
    : ∃ p : Page,
        ((({} : Page).recordStart startTime startCpu).recordEnd endTime).writeStatus status
            = (p, true)
          ∧ p.startUser.toNat = user + 1
          ∧ p.startSystem.toNat = system + 1
          ∧ p.startNanos.toNat = startTime.ns + 1
          ∧ p.endNanos.toNat = endTime.ns + 1
          ∧ p.Shows startTime startCpu endTime status := by
  have ⟨htime, huser, hsystem⟩ := hstart
  refine ⟨_, rfl, ?_, ?_, ?_, ?_, ?_⟩
  . rw [← hcpu.micros.1]
    exact toNat_stamp huser
  . rw [← hcpu.micros.2]
    exact toNat_stamp hsystem
  . exact toNat_stamp htime
  . exact toNat_stamp hend
  . constructor
    case outcome =>
      change outcomeAfter .ended { code := status.change.code, value := status.value } = _
      unfold outcomeAfter
      dsimp only
      rw [StateChange.ofCode?_code]
    case start =>
      change shownStart startTime startCpu = _
      rw [shownStart_eq hstart, hcpu.floorMicros_eq]
    case endTime =>
      change (unstamp (stamp endTime.ns)).map _ = _
      rw [unstamp_stamp hend, Option.map_some, ofNanos_toNat (Nat.lt_of_succ_lt hend)]

end Records

section Origin

variable {r : Race} {p : Page} {status : ProcessStatus}

theorem outcome_of_hidden (h : p.progress = .free ∨ p.progress = .claimed)
    : p.outcome = .none := by
  unfold Page.outcome outcomeAfter
  obtain h | h := h
  . rw [h]
  . rw [h]

theorem Decided.writeStatus_of_ended (h : Decided r) (hpage : r.page.outcome = .ended status)
    : ∃ k, r.remaining k = some (.writeStatus status, .done (.written true)) := by
  obtain h | ⟨w, o, hw, k, left, h⟩ := h
  . rw [outcome_of_hidden (.inl h.clear)] at hpage
    contradiction
  . cases left with
    | cons s left =>
      rw [outcome_of_hidden (.inr (h.hides nofun))] at hpage
      contradiction
    | nil =>
      have hrun := (yields_loadOutcome hw).run h.page_shows
      rw [run_loadOutcome _ h.size, hpage] at hrun
      cases hrun
      refine ⟨k, ?_⟩
      cases w with
      | writeStatus s =>
        cases hw
        exact h.call
      | writeMessage => cases hw
      | _ => contradiction

inductive StartRest : Call → Program → Prop
  | aside {c : Call} {rest : Program} (h : Avoids Cell.tellsStart rest) : StartRest c rest
  | records {time : Duration} {cpu : CpuTime} {made left : List Store}
      (h : startStores time cpu = made ++ left)
      : StartRest (.recordStart time cpu) (.storing left .recorded)

theorem startRest_program (c : Call) : StartRest c c.program := by
  cases c with
  | recordStart time cpu => exact .records (List.nil_append _).symm
  | _ => exact .aside (avoids_tellsStart nofun)

namespace StartRest

variable {c : Call} {rest : Program}

theorem step (h : StartRest c rest) (p : Page) : StartRest c (rest.step p).1 := by
  cases h with
  | aside h => exact .aside (h.step p).1
  | @records time cpu made left hstores =>
    cases left with
    | nil => exact .records hstores
    | cons s left => exact .records (hstores.trans (List.append_cons made s left))

theorem startNanos_step (h : StartRest c rest) (p : Page)
    : (rest.step p).2.startNanos = p.startNanos
        ∨ ∃ time cpu, c = .recordStart time cpu ∧ (rest.step p).1 = .done .recorded := by
  cases h with
  | aside h => exact .inl ((h.step p).2 .startNanos rfl)
  | @records time cpu made left hstores =>
    cases left with
    | nil => exact .inl rfl
    | cons s left =>
      by_cases hleft : left = []
      . exact .inr ⟨time, cpu, rfl, by rw [hleft]; rfl⟩
      . exact .inl (startNanos_store_of_left hstores hleft)

end StartRest

structure Originates (r : Race) : Prop where
  rest : ∀ i c rest, r.remaining i = some (c, rest) → StartRest c rest
  recorded : r.page.startNanos ≠ 0 →
    ∃ i time cpu, r.remaining i = some (.recordStart time cpu, .done .recorded)

theorem Originates.step (h : Originates r) (e : Race.Event) : Originates (r.step e) := by
  have hmoves := Race.moves_step r e
  -- What has been recorded whole stays so.
  have hkept (hnanos : r.page.startNanos ≠ 0)
      : ∃ i time cpu, (r.step e).remaining i = some (.recordStart time cpu, .done .recorded) := by
    obtain ⟨i, time, cpu, hi⟩ := h.recorded hnanos
    exact ⟨i, time, cpu, hmoves.remaining_done hi⟩
  constructor
  case rest => exact hmoves.forall_remaining startRest_program (fun _ _ h => h.step r.page) h.rest
  case recorded =>
    cases hmoves with
    | begins c hpage | rests hpage =>
      rw [hpage]
      exact hkept
    | accesses i c rest hcurrent hpage hnew =>
      rw [hpage]
      obtain hsame | ⟨time, cpu, hcall, hdone⟩ := (h.rest i c rest hcurrent).startNanos_step r.page
      . rw [hsame]
        exact hkept
      . intro _
        rw [hcall, hdone] at hnew
        exact ⟨i, time, cpu, hnew⟩

theorem originates_run (es : List Race.Event) : Originates (Race.run {} es) := by
  refine Race.run_induction (fun _ e h => h.step e) ⟨?_, fun h => absurd rfl h⟩ es
  intro i c rest hc
  contradiction

theorem startNanos_ne_zero (h : p.start.isSome) : p.startNanos ≠ 0 := by
  intro hnanos
  unfold Page.start startAfter unstamp at h
  rw [if_pos hnanos] at h
  contradiction

end Origin

/-- The counters of two contents of `cpu.stat`, the moments of the start and of the end, a status
and a peak go to the client as they are: what the client gets are their exact differences, down to
zero, and no sum on the way is too large. Only an enclosure whose status has claimed the page and
whose start is on it has such an account, whatever else its processes report. -/
theorem exact_account_and_recorded_of_isRan
    : (∀ (content : String) (cpu : CpuTime), ControlGroup.parseCpuStat content = .ok cpu →
        ∃ user system, ControlGroup.Counts content user system cpu)
        ∧ (∀ (first last : String) (u₀ s₀ u₁ s₁ : Nat) (cpu₀ cpu₁ : CpuTime),
            ControlGroup.Counts first u₀ s₀ cpu₀ → ControlGroup.Counts last u₁ s₁ cpu₁ →
            u₀ + 1 < UInt64.size → s₀ + 1 < UInt64.size →
            ∀ t₀ t₁ : Duration, t₀.ns + 1 < UInt64.size → t₁.ns + 1 < UInt64.size →
            ∀ (status initStatus : ProcessStatus) (peakMemory : UInt64),
              ∃ (p : Page) (cpu : CpuTime) (runtime : Duration) (frame : List UInt8),
                ((({} : Page).recordStart t₀ cpu₀).recordEnd t₁).writeStatus status = (p, true)
                  ∧ p.startUser.toNat = u₀ + 1
                  ∧ p.startSystem.toNat = s₀ + 1
                  ∧ p.startNanos.toNat = t₀.ns + 1
                  ∧ p.endNanos.toNat = t₁.ns + 1
                  ∧ p.Shows t₀ cpu₀ t₁ status
                  ∧ p.outcome.verdict ⟨p.start, p.endTime, cpu₁, peakMemory⟩ initStatus
                      = .ran status cpu peakMemory runtime
                  ∧ (Verdict.ran status cpu peakMemory runtime).encode = .ok frame
                  ∧ Verdict.decode (frame.drop Frame.lengthSize)
                      = .ok (.ran status cpu peakMemory runtime)
                  ∧ cpu.IsMicros (u₁ - u₀) (s₁ - s₀)
                  ∧ runtime.ns = t₁.ns - t₀.ns
                  ∧ (∃ total, cpu₀.total? = some total ∧ total.ns = (u₀ + s₀) * 1000)
                  ∧ (∃ total, cpu₁.total? = some total ∧ total.ns = (u₁ + s₁) * 1000)
                  ∧ ∃ total, cpu.total? = some total ∧ total.ns = (u₁ - u₀ + (s₁ - s₀)) * 1000)
        ∧ (∀ (outcome : Outcome) (usage : Usage) (initStatus : ProcessStatus),
            (outcome.verdict usage initStatus).isRan ↔
              ∃ status, outcome = .ended status ∧ usage.start.isSome)
        ∧ ∀ (es : List Race.Event) (finalCpu : CpuTime) (peakMemory : UInt64)
            (initStatus : ProcessStatus),
            let r := Race.run {} es
            let v := r.page.outcome.verdict
              ⟨r.page.start, r.page.endTime, finalCpu, peakMemory⟩ initStatus
            (∃ description, v = .failed description)
              ∨ ∃ j k status time cpu,
                  r.remaining j = some (.recordStart time cpu, .done .recorded)
                    ∧ r.remaining k = some (.writeStatus status, .done (.written true))
                    ∧ v.status? = some status := by
  refine ⟨?_, ?_, isRan_verdict_iff, ?_⟩
  . intro content cpu h
    obtain ⟨user, system, h, _⟩ := ControlGroup.counts_of_parseCpuStat h
    exact ⟨user, system, h⟩
  . intro first last u₀ s₀ u₁ s₁ cpu₀ cpu₁ hfirst hlast hu₀ hs₀ t₀ t₁ ht₀ ht₁ status initStatus
      peakMemory
    have hmicros := hfirst.isMicros
    have hdifference := hlast.isMicros.sub hmicros
    have hu₁ := ControlGroup.lt_of_counter? hlast.user
    have hs₁ := ControlGroup.lt_of_counter? hlast.system
    have hstart : StartFits t₀ cpu₀ := by
      unfold StartFits
      rw [hmicros.micros.1, hmicros.micros.2]
      exact ⟨ht₀, hu₀, hs₀⟩
    obtain ⟨p, hp, huser, hsystem, hnanos, hend, hshows⟩ := exists_shows hstart ht₁ hmicros status
    have hu : u₁ - u₀ < UInt64.size := Nat.lt_of_le_of_lt (Nat.sub_le ..) hu₁
    have hs : s₁ - s₀ < UInt64.size := Nat.lt_of_le_of_lt (Nat.sub_le ..) hs₁
    obtain ⟨frame, hencode, hdecode⟩ :=
      Verdict.exists_encode_decode_ran status peakMemory (t₁ - t₀) hdifference hu hs
    refine ⟨p, _, _, frame, hp, huser, hsystem, hnanos, hend, hshows, ?_, hencode, hdecode,
      hdifference, rfl, hmicros.exists_total (Nat.lt_of_succ_lt hu₀) (Nat.lt_of_succ_lt hs₀),
      hlast.isMicros.exists_total hu₁ hs₁, hdifference.exists_total hu hs⟩
    rw [hshows.outcome, hshows.start, hshows.endTime]
    rfl
  . intro es finalCpu peakMemory initStatus r v
    obtain hfailed | ⟨status, houtcome, hstart, hstatus⟩ := verdict_cases r.page.outcome
      ⟨r.page.start, r.page.endTime, finalCpu, peakMemory⟩ initStatus
    . exact .inl hfailed
    . obtain ⟨k, hk⟩ := (decided_run es).writeStatus_of_ended houtcome
      obtain ⟨j, time, cpu, hj⟩ := (originates_run es).recorded (startNanos_ne_zero hstart)
      exact .inr ⟨j, k, status, time, cpu, hj, hk, hstatus⟩

def statAtStart : String := "usage_usec 1700\nuser_usec 1200\nsystem_usec 500\n"

-- What `cpu.stat` says at the end; the time in the kernel has become less.
def statAtEnd : String := "usage_usec 4600\nuser_usec 4300\nsystem_usec 300\nnr_periods 0\n"

def startedAndEnded : List Race.Event :=
  .begins (.recordStart .zero .zero) :: .replicate 3 (.goesOn 0)
    ++ .begins (.writeStatus ⟨.exited, 3⟩) :: .replicate 4 (.goesOn 1)

theorem exact_account_and_recorded_of_isRan_of_stats
    : let r := Race.run {} startedAndEnded
      ControlGroup.Counts statAtStart 1200 500 ⟨.ofMicros 1200, .ofMicros 500⟩
        ∧ ControlGroup.Counts statAtEnd 4300 300 ⟨.ofMicros 4300, .ofMicros 300⟩
        ∧ (∃ (cpu : CpuTime) (runtime : Duration) (frame : List UInt8),
            (Verdict.ran ⟨.exited, 3⟩ cpu 4096 runtime).encode = .ok frame
              ∧ Verdict.decode (frame.drop Frame.lengthSize)
                  = .ok (.ran ⟨.exited, 3⟩ cpu 4096 runtime)
              ∧ cpu.IsMicros 3100 0
              ∧ runtime.ns = 1999999999)
        ∧ ∃ j k status time cpu,
            r.remaining j = some (.recordStart time cpu, .done .recorded)
              ∧ r.remaining k = some (.writeStatus status, .done (.written true)) := by
  intro r
  have hfirst : ControlGroup.Counts statAtStart 1200 500 ⟨.ofMicros 1200, .ofMicros 500⟩ :=
    ⟨rfl, rfl, rfl⟩
  have hlast : ControlGroup.Counts statAtEnd 4300 300 ⟨.ofMicros 4300, .ofMicros 300⟩ :=
    ⟨rfl, rfl, rfl⟩
  obtain ⟨_, haccount, _, hrace⟩ := exact_account_and_recorded_of_isRan
  obtain ⟨_, cpu, runtime, frame, _, _, _, _, _, _, _, hencode, hdecode, hcpu, hruntime, _⟩ :=
    haccount statAtStart statAtEnd 1200 500 4300 300 _ _ hfirst hlast (by decide) (by decide)
      (.ofNanos 7000000001) (.ofNanos 9000000000) (by decide) (by decide) ⟨.exited, 3⟩
      ⟨.exited, 0⟩ 4096
  refine ⟨hfirst, hlast, ⟨cpu, runtime, frame, hencode, hdecode, hcpu, hruntime⟩, ?_⟩
  obtain ⟨_, hfailed⟩ | ⟨j, k, status, time, cpu, hj, hk, _⟩ :=
    hrace startedAndEnded .zero 0 ⟨.exited, 0⟩
  . cases hfailed
  . exact ⟨j, k, status, time, cpu, hj, hk⟩

end Outcome

end Enclosure
