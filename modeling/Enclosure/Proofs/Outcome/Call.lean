import Enclosure.Proofs.Outcome.Program
import Enclosure.Proofs.Text.Boundary
import Enclosure.Proofs.Verdict.RoundTrip

/-!
This module contains what the calls on a page store and read. A call that nobody disturbs comes to
what the page says at once, and what one call has published another one reads back.
-/

namespace Enclosure.Outcome

def visibleAs : Outcome → Progress
  | none => .free
  | ended _ => .ended
  | failed _ => .failed

namespace Page

def fitting (capacity : Nat) : List Char → List Char
  | [] => []
  | c :: cs => if c.utf8Size ≤ capacity then c :: fitting (capacity - c.utf8Size) cs else []

def kept (message : String) : String :=
  String.ofList (fitting messageCapacity message.toList)

theorem size_fitting_le (capacity : Nat) (cs : List Char)
    : (String.ofList (fitting capacity cs)).utf8ByteSize ≤ capacity := by
  induction cs generalizing capacity with
  | nil => exact Nat.zero_le _
  | cons c cs ih =>
    unfold fitting
    split
    . have := ih (capacity - c.utf8Size)
      rw [String.ofList_cons, String.utf8ByteSize_append, String.utf8ByteSize_singleton]
      omega
    . exact Nat.zero_le _

theorem longest_fitting {capacity : Nat} {cs other back : List Char} (hcs : cs = other ++ back)
    (hfits : (String.ofList other).utf8ByteSize ≤ capacity)
    : (String.ofList other).utf8ByteSize
        ≤ (String.ofList (fitting capacity cs)).utf8ByteSize := by
  induction other generalizing capacity cs with
  | nil => exact Nat.zero_le _
  | cons c other ih =>
    subst hcs
    rw [String.ofList_cons, String.utf8ByteSize_append, String.utf8ByteSize_singleton] at hfits ⊢
    rw [List.cons_append, fitting, if_pos (by omega), String.ofList_cons,
      String.utf8ByteSize_append, String.utf8ByteSize_singleton]
    apply Nat.add_le_add_left
    exact ih rfl (by omega)

theorem fitting_isPrefix (capacity : Nat) (cs : List Char) : fitting capacity cs <+: cs := by
  induction cs generalizing capacity with
  | nil => exact List.prefix_rfl
  | cons c cs ih =>
    unfold fitting
    split
    . exact List.cons_prefix_cons.mpr ⟨rfl, ih _⟩
    . exact List.nil_prefix

theorem isLongestFront_kept (message : String)
    : Text.IsLongestFront messageCapacity message (kept message) := by
  obtain ⟨cs, rfl⟩ := message.exists_eq_ofList
  unfold kept
  rw [String.toList_ofList]
  refine ⟨?_, size_fitting_le _ _, ?_⟩
  . obtain ⟨back, hback⟩ := fitting_isPrefix messageCapacity cs
    refine ⟨.ofList back, ?_⟩
    rw [← String.ofList_append, hback]
  . intro other back heq hfits
    obtain ⟨os, rfl⟩ := other.exists_eq_ofList
    obtain ⟨bs, rfl⟩ := back.exists_eq_ofList
    rw [← String.ofList_append, String.ofList_inj] at heq
    exact longest_fitting heq hfits

theorem messageBytes_eq (message : String)
    : messageBytes message = (kept message).toUTF8.data.toList :=
  (isLongestFront_kept message).take_eq

theorem length_messageBytes_le (message : String)
    : (messageBytes message).length ≤ messageCapacity := by
  rw [messageBytes_eq, Reader.length_toUTF8]
  apply size_fitting_le

theorem ofBytes_messageBytes (message : String)
    : Text.ofBytes (messageBytes message) = kept message := by
  rw [messageBytes_eq]
  unfold Text.ofBytes
  rw [Reader.fromUTF8?_toUTF8]

theorem Call.program_ne_done (c : Call) (a : Answer) : c.program ≠ .done a := by
  cases c <;> exact nofun

section Run

theorem run_storing (stores : List Store) (a : Answer) (p : Page)
    : (Program.storing stores a).run p = (a, p.storeAll stores) := by
  induction stores generalizing p with
  | nil => rfl
  | cons s stores ih => exact ih (p.store s)

theorem run_publishing (stores : List Store) (p : Page)
    : (Program.publishing stores).run p
        =
      (.written (p.publish stores).2, (p.publish stores).1) := by
  unfold Program.publishing Program.run publish
  cases p.claim with
  | none => rfl
  | some p => exact run_storing stores (.written true) p

theorem run_loadBytes (next : List UInt8 → Program) (i count : Nat) (p : Page)
    (h : i + count ≤ p.message.length)
    : (Program.loadBytes i count next).run p = (next ((p.message.drop i).take count)).run p := by
  induction count generalizing i next with
  | zero => rw [List.take_zero]; rfl
  | succ count ih =>
    have hi : i < p.message.length := by omega
    have hload : p.load (.messageByte i) = p.message[i] := by simp [load, hi]
    change (Program.loadBytes (i + 1) count fun bs =>
      next (p.load (.messageByte i) :: bs)).run p = _
    rw [ih _ _ (by omega), hload, List.drop_eq_getElem_cons hi, List.take_succ_cons]

theorem run_loadOutcome (p : Page) (hsize : p.message.length = messageCapacity)
    : Program.loadOutcome.run p = (.outcome p.outcome, p) := by
  unfold Program.loadOutcome Program.run outcome
  have hload : p.load .progress = p.progress := rfl
  rw [hload]
  cases p.progress with
  | free | claimed | ended => rfl
  | failed =>
    change (Program.loadBytes 0 (min p.messageLength messageCapacity) _).run p = _
    have hbytes : ((p.message.take (min p.messageLength messageCapacity)).take p.messageLength)
        = p.message.take p.messageLength := by
      rw [List.take_take, List.take_eq_take_iff]
      omega
    rw [run_loadBytes _ _ _ _ (by omega), List.drop_zero]
    unfold Program.run outcomeAfter
    dsimp only
    rw [← hbytes]
    rfl

theorem run_loadStart (p : Page) : Program.loadStart.run p = (.start p.start, p) := by
  change Program.run p (if p.startNanos = 0 then _ else .load .startUser _) = _
  by_cases hnanos : p.startNanos = 0
  . have : p.start = .none := by simp [start, startAfter, unstamp, hnanos]
    rw [if_pos hnanos, this]
    rfl
  . rw [if_neg hnanos]
    change Program.run p (if p.startUser = 0 then _ else .load .startSystem _) = _
    by_cases huser : p.startUser = 0
    . have : p.start = .none := by simp [start, startAfter, unstamp, huser]
      rw [if_pos huser, this]
      rfl
    . rw [if_neg huser]
      rfl

theorem run_program (c : Call) (p : Page) (hsize : p.message.length = messageCapacity)
    : c.program.run p = c.perform p := by
  cases c with
  | writeStatus s => exact run_publishing _ p
  | writeMessage message => exact run_publishing _ p
  | outcome => exact run_loadOutcome p hsize
  | start => exact run_loadStart p
  | recordStart time cpu => exact run_storing _ _ p
  | _ => rfl

end Run

section Outcome

def Cell.tellsOutcome : Cell → Bool
  | progress | code | value | messageLength | messageByte _ => true
  | _ => false

def Call.outcome? : Call → Option Outcome
  | writeStatus s => some (.ended s)
  | writeMessage message => some (.failed (kept message))
  | _ => .none

def Call.outcomeStores : Call → List Store
  | writeStatus s => statusStores s
  | writeMessage message => messageStores message
  | _ => []

def Call.reading? (o : Outcome) : Call → Option Answer
  | outcome => some (.outcome o)
  | hasMessage => some (.hasMessage (o matches .failed _))
  | _ => .none

def ShowsOutcome (w : Call) (p : Page) : Prop :=
  ∀ s ∈ w.outcomeStores, p.Holds s

theorem map_cell_messageStores (message : String)
    : (messageStores message).map Store.cell
        =
      (List.range (messageBytes message).length).map Cell.messageByte
        ++ [.messageLength, .progress] := by
  have hbytes : ((messageBytes message).mapIdx Store.messageByte).map Store.cell
      = (List.range (messageBytes message).length).map Cell.messageByte := by
    apply List.ext_getElem
    . simp
    . intro i _ _
      simp [Store.cell]
  unfold messageStores
  rw [List.map_append, hbytes]
  rfl

theorem orderly_outcomeStores (w : Call) : Store.Orderly w.outcomeStores := by
  cases w with
  | writeStatus s =>
    constructor
    . change [Cell.code, .value, .progress].Nodup
      decide
    . simp [Call.outcomeStores, statusStores, Store.Fits, Store.cell]
  | writeMessage message =>
    have hcells := map_cell_messageStores message
    constructor
    . change ((messageStores message).map Store.cell).Nodup
      rw [hcells, List.nodup_append]
      refine ⟨?_, by decide, by simp⟩
      apply List.Pairwise.map Cell.messageByte ?_ List.nodup_range
      intro i j hne h
      exact hne (Cell.messageByte.inj h)
    . intro s hs i hi
      have hmem := List.mem_map_of_mem (f := Store.cell) hs
      rw [hi] at hmem
      change Cell.messageByte i ∈ (messageStores message).map Store.cell at hmem
      rw [hcells] at hmem
      have := length_messageBytes_le message
      simp at hmem
      omega
  | _ => exact ⟨.nil, by simp [Call.outcomeStores]⟩

theorem outcomeStores_eq {w : Call} {o : Outcome} (h : w.outcome? = some o)
    : ∃ front,
        w.outcomeStores = front ++ [.progress o.visibleAs] ∧ ∀ s ∈ front, s.cell ≠ .progress := by
  cases w with
  | writeStatus s =>
    cases h
    exact ⟨[_, _], rfl, by simp [Store.cell]⟩
  | writeMessage message =>
    cases h
    refine ⟨(messageBytes message).mapIdx .messageByte
      ++ [.messageLength (messageBytes message).length], ?_, ?_⟩
    . simp [Call.outcomeStores, messageStores, visibleAs]
    . intro s hs
      rw [List.mem_append, List.mem_singleton, List.mem_mapIdx] at hs
      obtain ⟨i, _, rfl⟩ | rfl := hs
      . simp [Store.cell]
      . simp [Store.cell]
  | _ => contradiction

theorem ShowsOutcome.load_progress {w : Call} {o : Outcome} {p : Page} (hp : ShowsOutcome w p)
    (h : w.outcome? = some o)
    : p.load .progress = o.visibleAs := by
  obtain ⟨front, hstores, _⟩ := outcomeStores_eq h
  exact hp (.progress o.visibleAs) (by simp [hstores])

theorem visibleAs_ne_free {w : Call} {o : Outcome} (h : w.outcome? = some o)
    : o.visibleAs ≠ .free := by
  cases w with
  | writeStatus | writeMessage =>
    cases h
    exact nofun
  | _ => contradiction

theorem tellsOutcome_of_mem {w : Call} {s : Store} (h : s ∈ w.outcomeStores)
    : s.cell.tellsOutcome = true := by
  cases w with
  | writeStatus status =>
    simp [Call.outcomeStores, statusStores] at h
    obtain rfl | rfl | rfl := h <;> rfl
  | writeMessage message =>
    have hmem := List.mem_map_of_mem (f := Store.cell) h
    change s.cell ∈ (messageStores message).map Store.cell at hmem
    rw [map_cell_messageStores] at hmem
    simp at hmem
    obtain ⟨i, _, hi⟩ | hi | hi := hmem
    . rw [← hi]
      rfl
    . rw [hi]
      rfl
    . rw [hi]
      rfl
  | _ => contradiction

theorem yields_loadOutcome {w : Call} {o : Outcome} (h : w.outcome? = some o)
    : Yields (ShowsOutcome w) .loadOutcome (.outcome o) := by
  cases w with
  | writeStatus s =>
    cases h
    apply Yields.load
    intro p hp
    rw [hp.load_progress rfl]
    apply Yields.load
    intro p hp
    have hcode : p.load .code = s.change.code := hp (.code _) List.mem_cons_self
    rw [hcode]
    apply Yields.load
    intro p hp
    have hvalue : p.load .value = s.value := hp (.value _) (by
      simp [Call.outcomeStores, statusStores])
    unfold outcomeAfter
    dsimp only
    rw [hvalue, StateChange.ofCode?_code]
    exact .done _
  | writeMessage message =>
    cases h
    apply Yields.load
    intro p hp
    rw [hp.load_progress rfl]
    apply Yields.load
    intro p hp
    have hlength : p.load .messageLength = (messageBytes message).length :=
      hp (.messageLength _) (by simp [Call.outcomeStores, messageStores])
    rw [hlength, Nat.min_eq_left (length_messageBytes_le message)]
    apply Yields.loadBytes
    . intro p hp j hj
      rw [Nat.zero_add]
      exact hp (.messageByte j _) (List.mem_append_left _ (List.mem_mapIdx.mpr ⟨j, hj, rfl⟩))
    . unfold outcomeAfter
      dsimp only
      rw [List.take_length, ofBytes_messageBytes]
      exact .done _
  | _ => contradiction

theorem yields_of_reading? {w c : Call} {o : Outcome} {a : Answer} (h : w.outcome? = some o)
    (hc : c.reading? o = some a)
    : Yields (ShowsOutcome w) c.program a := by
  cases c with
  | outcome =>
    cases hc
    exact yields_loadOutcome h
  | hasMessage =>
    cases hc
    apply Yields.load
    intro p hp
    rw [hp.load_progress h]
    cases o with
    | none | ended | failed => exact .done _
  | _ => contradiction

theorem step_program_of_hidden {c : Call} {a : Answer} {p : Page} (hc : c.reading? .none = some a)
    (hp : p.progress = .free ∨ p.progress = .claimed)
    : c.program.step p = (.done a, p) := by
  cases p
  dsimp only at hp
  cases c with
  | outcome | hasMessage =>
    cases hc
    obtain rfl | rfl := hp
    . rfl
    . rfl
  | _ => contradiction

theorem avoids_tellsOutcome {c : Call} (h : c.outcome? = .none)
    : Avoids Cell.tellsOutcome c.program := by
  cases c with
  | writeStatus | writeMessage => contradiction
  | outcome => exact .loadOutcome
  | start => exact .loadStart
  | recordStart time cpu => exact .storing (by simp [startStores, Store.cell, Cell.tellsOutcome]) _
  | recordEnd time => exact .storing (by simp [Store.cell, Cell.tellsOutcome]) _
  | hasMessage | endTime => exact .load fun _ => .done _

end Outcome

section Start

def Cell.tellsStart : Cell → Bool
  | startNanos | startUser | startSystem => true
  | _ => false

def ShowsStart (time : Duration) (cpu : CpuTime) (p : Page) : Prop :=
  ∀ s ∈ startStores time cpu, p.Holds s

def shownStart (time : Duration) (cpu : CpuTime) : Option (Duration × CpuTime) :=
  startAfter (stamp time.ns)
    { startUser := stamp cpu.user.micros, startSystem := stamp cpu.system.micros }

def StartFits (time : Duration) (cpu : CpuTime) : Prop :=
  time.ns + 1 < UInt64.size
    ∧ cpu.user.micros + 1 < UInt64.size
    ∧ cpu.system.micros + 1 < UInt64.size

theorem orderly_startStores (time : Duration) (cpu : CpuTime)
    : Store.Orderly (startStores time cpu) := by
  constructor
  . change [Cell.startUser, .startSystem, .startNanos].Nodup
    decide
  . simp [startStores, Store.Fits, Store.cell]

theorem tellsStart_of_mem {time : Duration} {cpu : CpuTime} {s : Store}
    (h : s ∈ startStores time cpu)
    : s.cell.tellsStart = true := by
  simp [startStores] at h
  obtain rfl | rfl | rfl := h
  . rfl
  . rfl
  . rfl

theorem yields_loadStart (time : Duration) (cpu : CpuTime)
    : Yields (ShowsStart time cpu) .loadStart (.start (shownStart time cpu)) := by
  have hshows (p : Page) (hp : ShowsStart time cpu p)
      : p.load .startNanos = stamp time.ns
        ∧ p.load .startUser = stamp cpu.user.micros
        ∧ p.load .startSystem = stamp cpu.system.micros := by
    unfold ShowsStart startStores at hp
    simp only [List.forall_mem_cons] at hp
    exact ⟨hp.2.2.1, hp.1, hp.2.1⟩
  apply Yields.load
  intro p hp
  rw [(hshows p hp).1]
  split
  . next hnanos =>
    unfold shownStart
    rw [hnanos]
    exact .done _
  . apply Yields.load
    intro p hp
    rw [(hshows p hp).2.1]
    split
    . next huser =>
      have : shownStart time cpu = .none := by simp [shownStart, startAfter, huser, unstamp]
      rw [this]
      exact .done _
    . apply Yields.load
      intro p hp
      rw [(hshows p hp).2.2]
      exact .done _

theorem toNat_stamp {n : Nat} (h : n + 1 < UInt64.size) : (stamp n).toNat = n + 1 := by
  unfold stamp
  rw [UInt64.toNat_add, UInt64.toNat_ofNat_of_lt' (Nat.lt_of_succ_lt h)]
  exact Nat.mod_eq_of_lt h

theorem unstamp_stamp {n : Nat} (h : n + 1 < UInt64.size)
    : unstamp (stamp n) = some (.ofNat n) := by
  have hne : stamp n ≠ 0 := by
    intro heq
    have := congrArg UInt64.toNat heq
    rw [toNat_stamp h] at this
    contradiction
  unfold unstamp
  rw [if_neg hne]
  unfold stamp
  rw [UInt64.add_sub_cancel]

theorem ofNanos_toNat {time : Duration} (h : time.ns < UInt64.size)
    : Duration.ofNanos (UInt64.ofNat time.ns).toNat = time := by
  unfold Duration.ofNanos
  rw [UInt64.toNat_ofNat_of_lt' h, dif_pos time.ns_lt]

theorem shownStart_eq {time : Duration} {cpu : CpuTime} (h : StartFits time cpu)
    : shownStart time cpu = some (time, cpu.floorMicros) := by
  obtain ⟨htime, huser, hsystem⟩ := h
  have hnanos := ofNanos_toNat (Nat.lt_of_succ_lt htime)
  unfold shownStart startAfter CpuTime.floorMicros
  rw [unstamp_stamp htime, unstamp_stamp huser, unstamp_stamp hsystem,
    ← CpuTime.ofMicros_micros _ (by omega), ← CpuTime.ofMicros_micros _ (by omega)]
  simp only [Option.bind_eq_bind, Option.bind_some, hnanos]
  rfl

theorem tellsStart_of_tellsOutcome {c : Cell} (h : c.tellsOutcome = true)
    : c.tellsStart = false := by
  cases c with
  | startNanos | startUser | startSystem | endNanos => contradiction
  | _ => rfl

theorem avoids_tellsStart {c : Call} (h : ∀ time cpu, c ≠ .recordStart time cpu)
    : Avoids Cell.tellsStart c.program := by
  cases c with
  | recordStart time cpu => exact absurd rfl (h time cpu)
  | outcome => exact .loadOutcome
  | start => exact .loadStart
  | writeStatus s =>
    exact .publishing rfl fun s hs =>
      tellsStart_of_tellsOutcome (tellsOutcome_of_mem (w := .writeStatus _) hs)
  | writeMessage message =>
    exact .publishing rfl fun s hs =>
      tellsStart_of_tellsOutcome (tellsOutcome_of_mem (w := .writeMessage _) hs)
  | recordEnd time => exact .storing (by simp [Store.cell, Cell.tellsStart]) _
  | hasMessage | endTime => exact .load fun _ => .done _

end Start

end Page

end Enclosure.Outcome
