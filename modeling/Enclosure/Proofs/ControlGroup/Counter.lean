import Enclosure.Proofs.ControlGroup.Content
import Enclosure.Proofs.Text.Words

/-!
This module contains what the content of `cpu.stat` is read as: the last numbers that are given to
the two counters, wherever their lines stand and whatever other lines there are.
-/

namespace Enclosure.ControlGroup

def givesCounter (line : List Char) : Bool :=
  cpuCounters.any fun key => (counterValue? key line).isSome

def IsLast (key content : String) (n : Nat) : Prop :=
  ∃ value, (counterValues key content).getLast? = some value ∧ Text.IsUnsigned 64 value n

def IsWord (key : String) : Prop :=
  key.toList ≠ [] ∧ key.toList.any Text.isBlank = false

def entryLine (entry : String × Nat) : List Char :=
  entry.1.toList ++ ' ' :: Nat.toDigits 10 entry.2

def statText (entries : List (String × Nat)) : String :=
  String.join (entries.map fun (key, n) => s!"{key} {n}\n")

section Values

variable {key content content' : String}

theorem readable_iff
    : Readable content
        ↔
      ∀ key ∈ cpuCounters,
        ∀ value ∈ counterValues key content, ∃ n, Text.IsUnsigned 64 value n := by
  unfold Readable
  simp only [Option.isSome_iff_exists, Text.unsigned?_eq_some_iff]

theorem counter?_eq_some_iff {n : Nat} : counter? key content = some n ↔ IsLast key content n := by
  unfold counter? IsLast
  rw [Option.bind_eq_some_iff]
  simp only [Text.unsigned?_eq_some_iff]

theorem Readable.exists_counter? (h : Readable content) (hkey : key ∈ cpuCounters)
    (hne : counterValues key content ≠ [])
    : ∃ n, counter? key content = some n := by
  unfold counter?
  rw [List.getLast?_eq_some_getLast hne]
  exact Option.isSome_iff_exists.mp (h key hkey _ (List.getLast_mem hne))

theorem counterValues_ne_nil {n : Nat} (h : counter? key content = some n)
    : counterValues key content ≠ [] := by
  intro hnil
  rw [counter?, hnil] at h
  contradiction

theorem exists_ok_iff
    : (∃ cpu, parseCpuStat content = .ok cpu)
        ↔
      ∀ key ∈ cpuCounters,
        counterValues key content ≠ []
          ∧ ∀ value ∈ counterValues key content, ∃ n, Text.IsUnsigned 64 value n := by
  constructor
  . rintro ⟨cpu, h⟩
    obtain ⟨hreadable, user, system, huser, hsystem, -⟩ := parseCpuStat_eq_ok_iff.mp h
    have hgiven : ∀ key ∈ cpuCounters, counterValues key content ≠ [] := by
      unfold cpuCounters
      simp only [List.forall_mem_cons]
      exact ⟨counterValues_ne_nil huser, counterValues_ne_nil hsystem, by simp⟩
    exact fun key hkey => ⟨hgiven key hkey, readable_iff.mp hreadable key hkey⟩
  . intro h
    have hreadable : Readable content := readable_iff.mpr fun key hkey => (h key hkey).2
    have hcounter (key : String) (hkey : key ∈ cpuCounters) : ∃ n, counter? key content = some n :=
      hreadable.exists_counter? hkey (h key hkey).1
    obtain ⟨user, huser⟩ := hcounter "user_usec" (by decide)
    obtain ⟨system, hsystem⟩ := hcounter "system_usec" (by decide)
    exact ⟨_, parseCpuStat_eq_ok_iff.mpr ⟨hreadable, user, system, huser, hsystem, rfl⟩⟩

theorem eq_malformed_of_error {e : GroupFault} (h : parseCpuStat content = .error e)
    : e = .malformed "cpu.stat" content := by
  unfold parseCpuStat at h
  split at h
  . contradiction
  . cases h
    rfl

theorem parseCpuStat_congr
    (h : ∀ key ∈ cpuCounters, counterValues key content' = counterValues key content)
    : parseCpuStat content'
        = (parseCpuStat content).mapError fun _ => .malformed "cpu.stat" content' := by
  have hok (cpu : CpuTime) : parseCpuStat content' = .ok cpu ↔ parseCpuStat content = .ok cpu := by
    have huser : counter? "user_usec" content' = counter? "user_usec" content := by
      rw [counter?, h _ (by decide), counter?]
    have hsystem : counter? "system_usec" content' = counter? "system_usec" content := by
      rw [counter?, h _ (by decide), counter?]
    have hreadable : Readable content' ↔ Readable content :=
      forall₂_congr fun key hkey => by rw [h key hkey]
    rw [parseCpuStat_eq_ok_iff, parseCpuStat_eq_ok_iff, huser, hsystem, hreadable]
  cases hparse : parseCpuStat content with
  | ok cpu => exact (hok cpu).mpr hparse
  | error e =>
    cases hparse' : parseCpuStat content' with
    | ok cpu => exact absurd (hparse.symm.trans ((hok cpu).mp hparse')) (by simp)
    | error e' =>
      rw [eq_malformed_of_error hparse']
      rfl

theorem counterValues_eq_filterMap_filter (hkey : key ∈ cpuCounters) (content : String)
    : counterValues key content
        = ((Text.lines content.toList).filter givesCounter).filterMap (counterValue? key) := by
  unfold counterValues
  rw [List.filterMap_filter]
  apply List.filterMap_congr
  intro line _
  split
  . rfl
  . next hother =>
    rw [givesCounter, List.any_eq_true] at hother
    rw [← Option.not_isSome_iff_eq_none]
    exact fun hsome => hother ⟨key, hkey, hsome⟩

theorem counterValues_eq_of_perm
    (hperm : (Text.lines content'.toList).Perm (Text.lines content.toList))
    (hone : (counterValues key content).length ≤ 1)
    : counterValues key content' = counterValues key content := by
  have hvalues : (counterValues key content').Perm (counterValues key content) :=
    hperm.filterMap _
  rcases h : counterValues key content with _ | ⟨value, _ | ⟨_, _⟩⟩
  . rwa [h, List.perm_nil] at hvalues
  . rwa [h, List.perm_singleton] at hvalues
  . simp [h] at hone

end Values

section Rendering

variable {entry : String × Nat} {entries others : List (String × Nat)} {user system : UInt64}

theorem isWord_of_mem_cpuCounters {key : String} (h : key ∈ cpuCounters) : IsWord key := by
  unfold cpuCounters at h
  simp only [List.mem_cons, List.not_mem_nil, or_false] at h
  unfold IsWord
  obtain rfl | rfl := h
  . decide
  . decide

theorem IsWord.isBlank_eq_false {key : String} (h : IsWord key)
    : ∀ c ∈ key.toList, Text.isBlank c = false := by
  simpa using h.2

theorem toList_statText (entries : List (String × Nat))
    : (statText entries).toList = (entries.map entryLine).flatMap (· ++ ['\n']) := by
  unfold statText
  rw [String.toList_join, List.flatMap_map, List.flatMap_map]
  congr 1
  funext ⟨key, n⟩
  simp only [String.toList_append, Text.toList_toString, entryLine, List.append_assoc]
  rfl

theorem not_mem_entryLine (h : IsWord entry.1) {c : Char} (hblank : Text.isBlank c) (hc : c ≠ ' ')
    : c ∉ entryLine entry := by
  unfold entryLine
  rw [List.mem_append, List.mem_cons, not_or, not_or]
  refine ⟨fun hmem => ?_, hc, fun hmem => ?_⟩
  . exact Bool.eq_false_iff.mp (h.isBlank_eq_false c hmem) hblank
  . exact Bool.eq_false_iff.mp (Text.isBlank_of_isDigit (Text.isDigit_toDigits _ c hmem)) hblank

theorem lines_statText (h : ∀ entry ∈ entries, IsWord entry.1)
    : Text.lines (statText entries).toList = entries.map entryLine := by
  rw [toList_statText]
  apply Text.lines_flatMap
  rw [List.forall_mem_map]
  intro entry hmem
  refine ⟨not_mem_entryLine (h entry hmem) (by decide) (by decide), fun hend => ?_⟩
  have hreturn : '\r' ∈ entryLine entry := hend.subset (by simp)
  exact not_mem_entryLine (h entry hmem) (by decide) (by decide) hreturn

theorem words_entryLine (h : IsWord entry.1)
    : Text.words (entryLine entry) = [entry.1.toList, Nat.toDigits 10 entry.2] := by
  unfold entryLine
  rw [Text.words_append_cons _ (by decide), Text.words_of_word h.1 h.isBlank_eq_false,
    Text.words_toDigits]
  rfl

theorem counterValue?_entryLine (key : String) (h : IsWord entry.1)
    : counterValue? key (entryLine entry)
        = if entry.1 = key then some (Nat.toDigits 10 entry.2) else none := by
  unfold counterValue?
  rw [words_entryLine h]
  simp only [String.toList_inj]

theorem counterValues_statText (key : String) (h : ∀ entry ∈ entries, IsWord entry.1)
    : counterValues key (statText entries)
        = (entries.filter (·.1 = key)).map fun entry => Nat.toDigits 10 entry.2 := by
  unfold counterValues
  rw [lines_statText h, List.filterMap_map, ← List.filterMap_eq_map, List.filterMap_filter]
  apply List.filterMap_congr
  intro entry hmem
  simp only [Function.comp, counterValue?_entryLine key (h entry hmem), decide_eq_true_eq]

theorem counterValues_of_perm {key : String} {n : Nat} {rest : List (String × Nat)}
    (hwords : ∀ entry ∈ entries, IsWord entry.1) (hperm : entries.Perm ((key, n) :: rest))
    (hrest : ∀ entry ∈ rest, entry.1 ≠ key)
    : counterValues key (statText entries) = [Nat.toDigits 10 n] := by
  have hfilter : ((key, n) :: rest).filter (·.1 = key) = [(key, n)] := by
    simpa using hrest
  rw [counterValues_statText key hwords, ← List.perm_singleton]
  have hvalues := (hperm.filter (·.1 = key)).map fun entry => Nat.toDigits 10 entry.2
  rwa [hfilter] at hvalues

theorem counter?_of_values {key content : String} {n : UInt64}
    (h : counterValues key content = [Nat.toDigits 10 n.toNat])
    : counter? key content = some n.toNat := by
  rw [counter?_eq_some_iff, IsLast, h]
  exact ⟨_, rfl, Text.isUnsigned_toDigits n.toNat_lt⟩

theorem parseCpuStat_statText
    (hothers : ∀ entry ∈ others, IsWord entry.1 ∧ entry.1 ∉ cpuCounters)
    (hperm : entries.Perm (("user_usec", user.toNat) :: ("system_usec", system.toNat) :: others))
    : parseCpuStat (statText entries) = .ok ⟨.ofMicros user, .ofMicros system⟩ := by
  have hwords : ∀ entry ∈ entries, IsWord entry.1 := by
    intro entry hmem
    rw [hperm.mem_iff, List.mem_cons, List.mem_cons] at hmem
    obtain rfl | rfl | hmem := hmem
    . apply isWord_of_mem_cpuCounters (List.mem_cons_self ..)
    . apply isWord_of_mem_cpuCounters (List.mem_cons_of_mem _ (List.mem_cons_self ..))
    . exact (hothers entry hmem).1
  have hne {key : String} (hkey : key ∈ cpuCounters) : ∀ entry ∈ others, entry.1 ≠ key :=
    fun entry hmem heq => (hothers entry hmem).2 (heq ▸ hkey)
  have huser : counterValues "user_usec" (statText entries) = [Nat.toDigits 10 user.toNat] := by
    apply counterValues_of_perm hwords hperm
    exact List.forall_mem_cons.mpr ⟨show "system_usec" ≠ _ by decide, hne (by decide)⟩
  have hsystem
      : counterValues "system_usec" (statText entries) = [Nat.toDigits 10 system.toNat] := by
    apply counterValues_of_perm hwords (hperm.trans (List.Perm.swap ..))
    exact List.forall_mem_cons.mpr ⟨show "user_usec" ≠ _ by decide, hne (by decide)⟩
  have hreadable : Readable (statText entries) := by
    rw [readable_iff]
    simp only [cpuCounters, List.forall_mem_cons, huser, hsystem]
    exact ⟨⟨⟨_, Text.isUnsigned_toDigits user.toNat_lt⟩, by simp⟩,
      ⟨⟨_, Text.isUnsigned_toDigits system.toNat_lt⟩, by simp⟩, by simp⟩
  rw [parseCpuStat_eq_ok_iff]
  refine ⟨hreadable, _, _, counter?_of_values huser, counter?_of_values hsystem, ?_⟩
  rw [UInt64.ofNat_toNat, UInt64.ofNat_toNat]

end Rendering

/-- The two counters of `cpu.stat` are read if they are given and whatever is given to them is a
number. Then the last number counts for each of them; otherwise the error holds the whole content.
What other lines there are makes no difference, nor does the order of the lines when each counter
is given at most once. -/
theorem parseCpuStat_last (content : String)
    : ((∃ cpu, parseCpuStat content = .ok cpu)
          ↔
        ∀ key ∈ cpuCounters,
          counterValues key content ≠ []
            ∧ ∀ value ∈ counterValues key content, ∃ n, Text.IsUnsigned 64 value n)
        ∧ (∀ cpu, parseCpuStat content = .ok cpu →
            ∃ user system,
              IsLast "user_usec" content user
                ∧ IsLast "system_usec" content system
                ∧ cpu.IsMicros user system)
        ∧ (∀ e, parseCpuStat content = .error e → e = .malformed "cpu.stat" content)
        ∧ (∀ content',
            ((Text.lines content'.toList).filter givesCounter
                  = (Text.lines content.toList).filter givesCounter
                ∨ (Text.lines content'.toList).Perm (Text.lines content.toList)
                  ∧ ∀ key ∈ cpuCounters, (counterValues key content).length ≤ 1) →
            parseCpuStat content'
              = (parseCpuStat content).mapError fun _ => .malformed "cpu.stat" content')
        ∧ ∀ (user system : UInt64) (others entries : List (String × Nat)),
            (∀ entry ∈ others, IsWord entry.1 ∧ entry.1 ∉ cpuCounters) →
            entries.Perm (("user_usec", user.toNat) :: ("system_usec", system.toNat) :: others) →
            parseCpuStat (statText entries) = .ok ⟨.ofMicros user, .ofMicros system⟩ := by
  refine ⟨exists_ok_iff, ?_, fun e => eq_malformed_of_error, ?_, ?_⟩
  . intro cpu h
    obtain ⟨user, system, hcounts, -⟩ := counts_of_parseCpuStat h
    exact ⟨user, system, counter?_eq_some_iff.mp hcounts.user,
      counter?_eq_some_iff.mp hcounts.system, hcounts.isMicros⟩
  . intro content' h
    apply parseCpuStat_congr
    intro key hkey
    cases h with
    | inl h =>
      rw [counterValues_eq_filterMap_filter hkey, h, ← counterValues_eq_filterMap_filter hkey]
    | inr h => exact counterValues_eq_of_perm h.1 (h.2 key hkey)
  . intro user system others entries hothers hperm
    apply parseCpuStat_statText hothers hperm

-- A counter that is not read, and a line without a value among the others.
def statMixed : String := "usage_usec 1700\nsystem_usec 500\nuser_usec\nuser_usec +1200 us\n"

def statReduced : String := "system_usec 500\nuser_usec +1200 us\n"

def statSwapped : String := "user_usec +1200 us\nsystem_usec 500\n"

theorem parseCpuStat_last_of_statMixed
    : (∃ user system,
        IsLast "user_usec" statMixed user
          ∧ IsLast "system_usec" statMixed system
          ∧ CpuTime.IsMicros ⟨.ofMicros 1200, .ofMicros 500⟩ user system)
        ∧ parseCpuStat statReduced = .ok ⟨.ofMicros 1200, .ofMicros 500⟩
        ∧ parseCpuStat statSwapped = .ok ⟨.ofMicros 1200, .ofMicros 500⟩
        ∧ parseCpuStat "user_usec -1\n" = .error (.malformed "cpu.stat" "user_usec -1\n")
        ∧ parseCpuStat (statText [("system_usec", 500), ("nice_usec", 0), ("user_usec", 1200)])
            = .ok ⟨.ofMicros 1200, .ofMicros 500⟩ := by
  have hparse : parseCpuStat statMixed = .ok ⟨.ofMicros 1200, .ofMicros 500⟩ := rfl
  obtain ⟨_, hlast, _, hsame, hrendered⟩ := parseCpuStat_last statMixed
  have hreduced := hsame statReduced (.inl rfl)
  have hone : ∀ key ∈ cpuCounters, (counterValues key statReduced).length ≤ 1 := by
    simp only [cpuCounters, List.forall_mem_cons]
    exact ⟨Nat.le_refl 1, Nat.le_refl 1, by simp⟩
  obtain ⟨_, _, _, hsame', _⟩ := parseCpuStat_last statReduced
  have hswapped := hsame' statSwapped (.inr ⟨.swap _ _ [], hone⟩)
  rw [hparse] at hreduced
  rw [hreduced] at hswapped
  refine ⟨hlast _ hparse, hreduced, hswapped, ?_, ?_⟩
  . cases h : parseCpuStat "user_usec -1\n" with
    | ok cpu => cases h
    | error e => rw [(parseCpuStat_last "user_usec -1\n").2.2.1 e h]
  . apply hrendered 1200 500 [("nice_usec", 0)]
    . unfold IsWord cpuCounters
      decide
    . exact List.reverse_perm [("user_usec", 1200), ("nice_usec", 0), ("system_usec", 500)]
        |>.trans (.cons _ (.swap ..))

end Enclosure.ControlGroup
