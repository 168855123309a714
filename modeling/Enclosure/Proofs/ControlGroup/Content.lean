import Enclosure.Proofs.Verdict.Strict
import Mathlib.Data.List.Basic

/-!
This module contains the counters of `cpu.stat`, and processor times that are whole microseconds, as
the counters and their differences are. Nothing is lost when such times are subtracted, added up, or
rounded down.
-/

namespace Enclosure

namespace CpuTime

def IsMicros (t : CpuTime) (user system : Nat) : Prop :=
  t.user.ns = user * 1000 ∧ t.system.ns = system * 1000

variable {t start : CpuTime} {user system user' system' : Nat}

theorem IsMicros.micros (h : t.IsMicros user system)
    : t.user.micros = user ∧ t.system.micros = system := by
  unfold Duration.micros
  rw [h.1, h.2, Nat.mul_div_cancel _ (by decide), Nat.mul_div_cancel _ (by decide)]
  exact ⟨rfl, rfl⟩

theorem IsMicros.floorMicros_eq (h : t.IsMicros user system) : t.floorMicros = t := by
  have hfloor {d : Duration} {n : Nat} (h : d.ns = n * 1000) : d.floorMicros = d := by
    cases d
    dsimp only at h
    unfold Duration.floorMicros
    simp only [h, Nat.mul_div_cancel _ (show 0 < 1000 by decide)]
  unfold floorMicros
  rw [hfloor h.1, hfloor h.2]

theorem IsMicros.sub (h : t.IsMicros user system) (hstart : start.IsMicros user' system')
    : IsMicros ⟨t.user - start.user, t.system - start.system⟩ (user - user')
        (system - system') := by
  unfold IsMicros
  dsimp only
  rw [Duration.ns_sub, Duration.ns_sub, h.1, h.2, hstart.1, hstart.2, Nat.sub_mul, Nat.sub_mul]
  exact ⟨rfl, rfl⟩

theorem IsMicros.exists_total (h : t.IsMicros user system) (huser : user < UInt64.size)
    (hsystem : system < UInt64.size)
    : ∃ total, t.total? = some total ∧ total.ns = (user + system) * 1000 := by
  have hsum : t.user.ns + t.system.ns = (user + system) * 1000 := by
    rw [h.1, h.2, Nat.add_mul]
  have hlt : t.user.ns + t.system.ns < UInt64.size * 1000000000 := by omega
  unfold CpuTime.total? Duration.add?
  rw [dif_pos hlt]
  exact ⟨_, rfl, hsum⟩

end CpuTime

theorem getLast?_filterMap_of_isSome {f : α → Option β} {as : List α} (h : ∀ a ∈ as, (f a).isSome)
    : (as.filterMap f).getLast? = as.getLast?.bind f := by
  obtain rfl | ⟨as, a, rfl⟩ := List.eq_nil_or_concat' as
  . rfl
  . obtain ⟨b, hb⟩ := Option.isSome_iff_exists.mp (h a (by simp))
    simp [hb]

theorem Text.lt_of_unsigned? {width n : Nat} {s : List Char} (h : unsigned? width s = some n)
    : n < 1 <<< width := by
  unfold unsigned? at h
  exact of_decide_eq_true (Option.filter_eq_some_iff.mp h).2

namespace ControlGroup

def counterValue? (key : String) (line : List Char) : Option (List Char) :=
  match Text.words line with
  | k :: value :: _ => if k = key.toList then some value else none
  | _ => none

def counterValues (key content : String) : List (List Char) :=
  (Text.lines content.toList).filterMap (counterValue? key)

def counter? (key content : String) : Option Nat :=
  (counterValues key content).getLast?.bind (Text.unsigned? 64)

structure Counts (content : String) (user system : Nat) (cpu : CpuTime) : Prop where
  accepted : parseCpuStat content = .ok cpu
  user : counter? "user_usec" content = some user
  system : counter? "system_usec" content = some system

theorem lt_of_counter? {key content : String} {n : Nat} (h : counter? key content = some n)
    : n < UInt64.size := by
  obtain ⟨_, _, h⟩ := Option.bind_eq_some_iff.mp h
  exact Text.lt_of_unsigned? h

def cpuCounters : List String := ["user_usec", "system_usec"]

namespace Counters

def Accepts (line : List Char) : Prop :=
  ∀ key ∈ cpuCounters, ∀ value ∈ counterValue? key line, (Text.unsigned? 64 value).isSome

def given? (key : String) (line : List Char) : Option Nat :=
  (counterValue? key line).bind (Text.unsigned? 64)

def lastGiven? (key : String) (lines : List (List Char)) : Option Nat :=
  (lines.filterMap (given? key)).getLast?

def updated (counters : Counters) (number? : String → Option Nat) : Counters where
  user := ((number? "user_usec").map .ofNat).or counters.user
  system := ((number? "system_usec").map .ofNat).or counters.system

variable {counters counters' : Counters}

theorem lastGiven?_cons (key : String) (line : List Char) (lines : List (List Char))
    : lastGiven? key (line :: lines) = (lastGiven? key lines).or (given? key line) := by
  unfold lastGiven?
  simp

theorem readLine_eq_some_iff {line : List Char}
    : counters.readLine line = some counters'
        ↔
      Accepts line ∧ counters.updated (given? · line) = counters' := by
  have hkeys : "user_usec".toList ≠ "system_usec".toList := by decide
  unfold readLine Accepts updated given? cpuCounters counterValue?
  simp only [List.forall_mem_cons, List.not_mem_nil, false_imp_iff, implies_true, and_true]
  generalize "user_usec".toList = user at *
  generalize "system_usec".toList = system at *
  cases Text.words line with
  | nil => simp
  | cons key rest =>
    cases rest with
    | nil => simp
    | cons value more =>
      by_cases huser : key = user
      . cases hvalue : Text.unsigned? 64 value with
        | none => simp [huser, hvalue]
        | some n => simp [huser, hkeys, hvalue]
      . by_cases hsystem : key = system
        . cases hvalue : Text.unsigned? 64 value with
          | none => simp [hsystem, hkeys.symm, hvalue]
          | some n => simp [hsystem, hkeys.symm, hvalue]
        . simp [huser, hsystem]

theorem foldlM_readLine_eq_some_iff {lines : List (List Char)}
    : lines.foldlM readLine counters = some counters'
        ↔
      (∀ line ∈ lines, Accepts line) ∧ counters.updated (lastGiven? · lines) = counters' := by
  induction lines generalizing counters with
  | nil => simp [updated, lastGiven?]
  | cons line lines ih =>
    rw [List.foldlM_cons, Option.bind_eq_bind, Option.bind_eq_some_iff, List.forall_mem_cons]
    simp only [ih, readLine_eq_some_iff, updated, lastGiven?_cons, Option.map_or, Option.or_assoc]
    constructor
    . rintro ⟨_, ⟨hline, rfl⟩, hlines, rfl⟩
      exact ⟨⟨hline, hlines⟩, rfl⟩
    . rintro ⟨⟨hline, hlines⟩, rfl⟩
      exact ⟨_, ⟨hline, rfl⟩, hlines, rfl⟩

end Counters

def Readable (content : String) : Prop :=
  ∀ key ∈ cpuCounters, ∀ value ∈ counterValues key content, (Text.unsigned? 64 value).isSome

theorem forall_accepts_iff {content : String}
    : (∀ line ∈ Text.lines content.toList, Counters.Accepts line) ↔ Readable content := by
  unfold Counters.Accepts Readable counterValues
  simp only [List.mem_filterMap]
  constructor
  . rintro h key hkey value ⟨line, hline, hvalue⟩
    exact h line hline key hkey value hvalue
  . intro h line hline key hkey value hvalue
    exact h key hkey value ⟨line, hline, hvalue⟩

theorem lastGiven?_eq {key content : String} (hkey : key ∈ cpuCounters) (h : Readable content)
    : Counters.lastGiven? key (Text.lines content.toList) = counter? key content := by
  unfold Counters.lastGiven? Counters.given? counter?
  rw [← getLast?_filterMap_of_isSome (h key hkey), counterValues, List.filterMap_filterMap]

theorem parseCpuStat_eq_ok_iff {content : String} {cpu : CpuTime}
    : parseCpuStat content = .ok cpu
        ↔
      Readable content
        ∧ ∃ user system,
            counter? "user_usec" content = some user
              ∧ counter? "system_usec" content = some system
              ∧ cpu = ⟨.ofMicros (.ofNat user), .ofMicros (.ofNat system)⟩ := by
  unfold parseCpuStat
  constructor
  . intro h
    split at h
    . next user system hrun =>
      cases h
      rw [Counters.foldlM_readLine_eq_some_iff, forall_accepts_iff] at hrun
      obtain ⟨hreadable, hcounters⟩ := hrun
      rw [Counters.updated, lastGiven?_eq (by decide) hreadable,
        lastGiven?_eq (by decide) hreadable] at hcounters
      simp only [Option.or_none, Counters.mk.injEq] at hcounters
      obtain ⟨n, hn, rfl⟩ := Option.map_eq_some_iff.mp hcounters.1
      obtain ⟨m, hm, rfl⟩ := Option.map_eq_some_iff.mp hcounters.2
      exact ⟨hreadable, n, m, hn, hm, rfl⟩
    . contradiction
  . rintro ⟨hreadable, user, system, huser, hsystem, rfl⟩
    have hrun : (Text.lines content.toList).foldlM Counters.readLine {}
        = some ⟨some (.ofNat user), some (.ofNat system)⟩ := by
      rw [Counters.foldlM_readLine_eq_some_iff, forall_accepts_iff, Counters.updated,
        lastGiven?_eq (by decide) hreadable, lastGiven?_eq (by decide) hreadable, huser, hsystem]
      exact ⟨hreadable, rfl⟩
    rw [hrun]

theorem counts_of_parseCpuStat {content : String} {cpu : CpuTime}
    (h : parseCpuStat content = .ok cpu)
    : ∃ user system,
        Counts content user system cpu
          ∧ cpu = ⟨.ofMicros (.ofNat user), .ofMicros (.ofNat system)⟩ := by
  obtain ⟨-, user, system, huser, hsystem, hcpu⟩ := parseCpuStat_eq_ok_iff.mp h
  exact ⟨user, system, ⟨h, huser, hsystem⟩, hcpu⟩

theorem Counts.isMicros {content : String} {user system : Nat} {cpu : CpuTime}
    (h : Counts content user system cpu)
    : cpu.IsMicros user system := by
  obtain ⟨user', system', h', hcpu⟩ := counts_of_parseCpuStat h.accepted
  have huser : user' = user := Option.some.inj (h'.user.symm.trans h.user)
  have hsystem : system' = system := Option.some.inj (h'.system.symm.trans h.system)
  subst huser hsystem
  rw [hcpu]
  unfold CpuTime.IsMicros
  dsimp only
  rw [Duration.ns_ofMicros, Duration.ns_ofMicros, UInt64.toNat_ofNat_of_lt' (lt_of_counter? h.user),
    UInt64.toNat_ofNat_of_lt' (lt_of_counter? h.system)]
  exact ⟨rfl, rfl⟩

end ControlGroup

end Enclosure
