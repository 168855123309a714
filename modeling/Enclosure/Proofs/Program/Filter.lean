import Enclosure.Program.Filter
import Enclosure.Proofs.Reader.Strict

/-!
This module contains the theory of system call filters: however the reads of its file go, a filter
is read whole, and it is accepted exactly if all of its instructions can be counted in 16 bits.
-/

namespace Enclosure

namespace OpenFile

variable {f : OpenFile} {data : List UInt8} {turns : List Turn}
  {result : Except IoFault (List UInt8)}

def Turn.isRead : Turn → Bool
  | .upTo _ => true
  | _ => false

def Yields (f : OpenFile) (turns : List Turn) (result : Except IoFault (List UInt8)) : Prop :=
  result = .ok f.content ∨ ∃ fault, .failed fault ∈ turns ∧ result = .error fault

theorem Yields.cons (h : f.Yields turns result) (turn : Turn)
    : f.Yields (turn :: turns) result := by
  obtain hok | ⟨fault, hmem, hfault⟩ := h
  . exact .inl hok
  . exact .inr ⟨fault, List.mem_cons_of_mem _ hmem, hfault⟩

theorem Yields.eq_content (h : f.Yields turns (.ok data)) : data = f.content := by
  obtain hok | ⟨_, _, hfault⟩ := h
  . exact Except.ok.inj hok
  . contradiction

theorem readAt_of_front (h : data <+: f.content) (n : Nat)
    : ((f.readAt data.length n).1 = [] ↔ data = f.content)
        ∧ data ++ (f.readAt data.length n).1 <+: f.content := by
  obtain ⟨rest, hrest⟩ := h
  have hdrop : f.content.drop data.length = rest := by rw [← hrest, List.drop_left]
  have hpos : min (max 1 n) chunk ≠ 0 := by unfold chunk; omega
  unfold readAt
  rw [hdrop, List.take_eq_nil_iff, or_iff_right hpos, ← hrest, List.prefix_append_right_inj]
  exact ⟨List.self_eq_append_right.symm, List.take_prefix ..⟩

theorem readWhole_upTo (f : OpenFile) (data : List UInt8) (n : Nat) (turns : List Turn)
    : f.readWhole data (.upTo n :: turns)
        =
      let got := (f.readAt data.length n).1
      if got = [] then (some (.ok data), f) else f.readWhole (data ++ got) turns :=
  rfl

theorem readWhole_of_front (h : data <+: f.content) (turns : List Turn)
    : (f.readWhole data turns).2 = f
        ∧ ∀ result, (f.readWhole data turns).1 = some result → f.Yields turns result := by
  induction turns generalizing data with
  | nil => exact ⟨rfl, nofun⟩
  | cons turn turns ih =>
    cases turn with
    | interrupted => exact ⟨(ih h).1, fun result hresult => ((ih h).2 result hresult).cons _⟩
    | failed fault =>
      refine ⟨rfl, fun result hresult => ?_⟩
      cases hresult
      exact .inr ⟨fault, List.mem_cons_self, rfl⟩
    | upTo n =>
      obtain ⟨hend, hmore⟩ := readAt_of_front h n
      rw [readWhole_upTo]
      dsimp only
      split
      . next hgot =>
        refine ⟨rfl, fun result hresult => ?_⟩
        cases hresult
        exact .inl (congrArg _ (hend.mp hgot))
      . exact ⟨(ih hmore).1, fun result hresult => ((ih hmore).2 result hresult).cons _⟩

-- Enough turns without a failure lead to a result: each read that is not the last gives at least
-- one byte.
theorem isSome_readWhole (h : data <+: f.content) (hfine : ∀ fault, .failed fault ∉ turns)
    (henough : f.content.length < data.length + turns.countP Turn.isRead)
    : (f.readWhole data turns).1.isSome := by
  induction turns generalizing data with
  | nil =>
    have := h.length_le
    rw [List.countP_nil] at henough
    omega
  | cons turn turns ih =>
    have hfine' : ∀ fault, .failed fault ∉ turns :=
      fun fault hmem => hfine fault (List.mem_cons_of_mem _ hmem)
    cases turn with
    | interrupted => exact ih h hfine' henough
    | failed fault => exact absurd List.mem_cons_self (hfine fault)
    | upTo n =>
      rw [readWhole_upTo]
      dsimp only
      split
      . rfl
      . next hgot =>
        apply ih (readAt_of_front h n).2 hfine'
        have := List.length_pos_iff.mpr hgot
        rw [List.countP_cons_of_pos rfl] at henough
        rw [List.length_append]
        omega

theorem readWhole_eq (hfine : ∀ fault, .failed fault ∉ turns)
    (henough : f.content.length < turns.countP Turn.isRead)
    : f.readWhole [] turns = (some (.ok f.content), f) := by
  have hnil : [] <+: f.content := List.nil_prefix
  obtain ⟨hfile, hresult⟩ := readWhole_of_front hnil turns
  obtain ⟨result, hsome⟩ := Option.isSome_iff_exists.mp
    (isSome_readWhole hnil hfine (by simpa using henough))
  obtain rfl | ⟨fault, hmem, -⟩ := hresult result hsome
  . exact Prod.ext hsome hfile
  . exact absurd hmem (hfine fault)

theorem failed_notMem_fullTurns (f : OpenFile) (fault : IoFault) : .failed fault ∉ f.fullTurns := by
  simp [fullTurns]

theorem length_lt_countP_fullTurns (f : OpenFile)
    : f.content.length < f.fullTurns.countP Turn.isRead := by
  rw [fullTurns, List.countP_replicate]
  exact Nat.lt_succ_self _

theorem contentAtStart_eq (f : OpenFile) : f.contentAtStart = f.content := by
  unfold contentAtStart
  rw [readWhole_eq f.failed_notMem_fullTurns f.length_lt_countP_fullTurns]

end OpenFile

namespace Filter

open Enclosure.Frame

variable {program : List UInt8} {f : OpenFile} {turns : List OpenFile.Turn}

def Instruction.bytes (i : Instruction) : List UInt8 :=
  littleEndian 2 i.code.toNat
    ++ i.ifTrue :: i.ifFalse :: littleEndian 4 i.operand.toNat

theorem littleEndian_ofNat_code (c₀ c₁ : UInt8)
    : littleEndian 2 (UInt16.ofNat (ofLittleEndian [c₀, c₁])).toNat = [c₀, c₁] := by
  rw [UInt16.toNat_ofNat', show 2 ^ 16 = Nat.pow 256 2 from rfl, littleEndian_mod]
  exact littleEndian_ofLittleEndian [c₀, c₁]

theorem littleEndian_ofNat_operand (k₀ k₁ k₂ k₃ : UInt8)
    : littleEndian 4 (UInt32.ofNat (ofLittleEndian [k₀, k₁, k₂, k₃])).toNat
        = [k₀, k₁, k₂, k₃] := by
  rw [UInt32.toNat_ofNat', show 2 ^ 32 = Nat.pow 256 4 from rfl, littleEndian_mod]
  exact littleEndian_ofLittleEndian [k₀, k₁, k₂, k₃]

theorem length_lt_of_short
    (h : ∀ c₀ c₁ ifTrue ifFalse k₀ k₁ k₂ k₃ rest,
      program = c₀ :: c₁ :: ifTrue :: ifFalse :: k₀ :: k₁ :: k₂ :: k₃ :: rest → False)
    : program.length < instructionSize := by
  rw [← Nat.not_le]
  intro hlong
  match program, hlong with
  | _ :: _ :: _ :: _ :: _ :: _ :: _ :: _ :: _, _ => exact h _ _ _ _ _ _ _ _ _ rfl

theorem decode_of_dvd (h : instructionSize ∣ program.length)
    : (decode program).length = program.length / instructionSize
        ∧ (decode program).flatMap Instruction.bytes = program := by
  unfold instructionSize at *
  fun_induction decode with
  | case1 c₀ c₁ ifTrue ifFalse k₀ k₁ k₂ k₃ rest ih =>
    simp only [List.length_cons] at h ⊢
    obtain ⟨hlength, hbytes⟩ := ih (by omega)
    refine ⟨by omega, ?_⟩
    rw [List.flatMap_cons, hbytes, Instruction.bytes, littleEndian_ofNat_code,
      littleEndian_ofNat_operand]
    rfl
  | case2 program hshort =>
    have hlength := Nat.eq_zero_of_dvd_of_lt h (length_lt_of_short hshort)
    rw [hlength, List.length_eq_zero_iff.mp hlength]
    exact ⟨rfl, rfl⟩

-- The program consists of whole instructions, so many that 16 bits can count them.
structure Installable (program : List UInt8) : Prop where
  nonempty : program ≠ []
  whole : instructionSize ∣ program.length
  counted : program.length ≤ instructionSize * 65535

-- The first check that the program fails gives this reason.
inductive Refused (program : List UInt8) : String → Prop where
  | empty (h : program = []) : Refused program "invalid seccomp_bpf_fd length: the program is empty"
  | broken (hne : program ≠ []) (h : ¬ instructionSize ∣ program.length)
    : Refused program
        s!"invalid seccomp_bpf_fd length: {program.length} is not a multiple of {instructionSize}"
  | large (hne : program ≠ []) (hwhole : instructionSize ∣ program.length)
      (h : instructionSize * 65535 < program.length)
    : Refused program "seccomp_bpf_fd is too big"

theorem installable_or_refused (program : List UInt8)
    : Installable program ∨ ∃ reason, Refused program reason := by
  by_cases hempty : program = []
  . exact .inr ⟨_, .empty hempty⟩
  . by_cases hwhole : instructionSize ∣ program.length
    . by_cases hcounted : program.length ≤ instructionSize * 65535
      . exact .inl ⟨hempty, hwhole, hcounted⟩
      . exact .inr ⟨_, .large hempty hwhole (Nat.lt_of_not_le hcounted)⟩
    . exact .inr ⟨_, .broken hempty hwhole⟩

theorem length_ne_zero (h : program ≠ []) : program.length ≠ 0 :=
  mt List.length_eq_zero_iff.mp h

theorem lt_size_iff (bytes : Nat)
    : bytes / instructionSize < UInt16.size ↔ bytes < instructionSize * 65536 := by
  rw [Nat.div_lt_iff_lt_mul (by decide), Nat.mul_comm]

theorem Installable.count_lt (h : Installable program)
    : program.length / instructionSize < UInt16.size := by
  rw [lt_size_iff]
  exact Nat.lt_of_le_of_lt h.counted (by decide)

theorem instructions_of_installable (h : Installable program)
    : instructions program.length = .ok (install program).count := by
  unfold instructions
  rw [if_neg (length_ne_zero h.nonempty), if_neg (not_not_intro (Nat.mod_eq_zero_of_dvd h.whole)),
    if_pos h.count_lt]
  rfl

theorem ofBytes_of_installable (h : Installable program) : ofBytes program = .ok program := by
  unfold ofBytes
  rw [instructions_of_installable h]
  rfl

theorem ofBytes_of_refused {reason : String} (h : Refused program reason)
    : ofBytes program = .error (.invalid reason) := by
  unfold ofBytes instructions
  cases h with
  | empty hempty =>
    rw [hempty]
    rfl
  | broken hne hbroken =>
    rw [if_neg (length_ne_zero hne), if_pos (mt Nat.dvd_of_mod_eq_zero hbroken)]
    rfl
  | large hne hwhole hlarge =>
    have hnot : ¬ program.length / instructionSize < UInt16.size := by
      rw [lt_size_iff]
      unfold instructionSize at *
      omega
    rw [if_neg (length_ne_zero hne), if_neg (not_not_intro (Nat.mod_eq_zero_of_dvd hwhole)),
      if_neg hnot]
    rfl

theorem ofBytes_eq_ok_iff {content : List UInt8}
    : ofBytes content = .ok program ↔ program = content ∧ Installable content := by
  constructor
  . intro h
    obtain hinstallable | ⟨reason, hrefused⟩ := installable_or_refused content
    . rw [ofBytes_of_installable hinstallable] at h
      exact ⟨(Except.ok.inj h).symm, hinstallable⟩
    . rw [ofBytes_of_refused hrefused] at h
      contradiction
  . rintro ⟨rfl, h⟩
    apply ofBytes_of_installable h

theorem ofBytes_eq_error_iff {content : List UInt8} {fault : SetupFault}
    : ofBytes content = .error fault
        ↔ ∃ reason, Refused content reason ∧ fault = .invalid reason := by
  constructor
  . intro h
    obtain hinstallable | ⟨reason, hrefused⟩ := installable_or_refused content
    . rw [ofBytes_of_installable hinstallable] at h
      contradiction
    . rw [ofBytes_of_refused hrefused] at h
      exact ⟨reason, hrefused, (Except.error.inj h).symm⟩
  . rintro ⟨reason, h, rfl⟩
    apply ofBytes_of_refused h

theorem install_of_installable (h : Installable program)
    : instructions program.length = .ok (install program).count
        ∧ (install program).count.toNat = program.length / instructionSize
        ∧ (install program).instructions.length = program.length / instructionSize
        ∧ (install program).instructions.flatMap Instruction.bytes = program := by
  exact ⟨instructions_of_installable h, UInt16.toNat_ofNat_of_lt' h.count_lt,
    decode_of_dvd h.whole⟩

theorem read_eq (hfine : ∀ fault, .failed fault ∉ turns)
    (henough : f.content.length < turns.countP OpenFile.Turn.isRead)
    : read f turns = (some (ofBytes f.content), f) := by
  unfold read
  rw [OpenFile.readWhole_eq hfine henough]
  rfl

theorem read_fullTurns (f : OpenFile) : read f f.fullTurns = (some (ofFile f), f) := by
  rw [read_eq f.failed_notMem_fullTurns f.length_lt_countP_fullTurns, ofFile,
    OpenFile.contentAtStart_eq]

theorem eq_content_of_read (h : (read f turns).1 = some (.ok program))
    : program = f.content ∧ Installable f.content := by
  obtain ⟨result, hresult, h⟩ := Option.map_eq_some_iff.mp h
  have hyields := (OpenFile.readWhole_of_front List.nil_prefix turns).2 result hresult
  cases result with
  | error fault => contradiction
  | ok data =>
    rw [hyields.eq_content] at h
    exact ofBytes_eq_ok_iff.mp h

/-- However the reads of its file go, a filter is read whole and the position of the file stays. It
is accepted exactly if it consists of instructions that 16 bits can count; then these, in their
order, and their number are what is installed. Otherwise the first check that it fails is told.
Turns that give all that is asked for come to what `ofFile` says. -/
theorem read_whole_or_refused (f : OpenFile) (turns : List OpenFile.Turn)
    : (f.readWhole [] turns).2 = f
        ∧ (∀ result, (f.readWhole [] turns).1 = some result → f.Yields turns result)
        ∧ (read f turns).2 = f
        ∧ (∀ program, (read f turns).1 = some (.ok program) →
            program = f.content
              ∧ Installable program
              ∧ instructions program.length = .ok (install program).count
              ∧ (install program).count.toNat = program.length / instructionSize
              ∧ (install program).instructions.length = program.length / instructionSize
              ∧ (install program).instructions.flatMap Instruction.bytes = program)
        ∧ ((∀ fault, .failed fault ∉ turns) →
            f.content.length < turns.countP OpenFile.Turn.isRead →
              f.readWhole [] turns = (some (.ok f.content), f)
                ∧ (∀ program, (read f turns).1 = some (.ok program)
                    ↔ program = f.content ∧ Installable f.content)
                ∧ ∀ fault, (read f turns).1 = some (.error fault)
                    ↔ ∃ reason, Refused f.content reason ∧ fault = .invalid reason)
        ∧ read f f.fullTurns = (some (ofFile f), f) := by
  have hnil : [] <+: f.content := List.nil_prefix
  obtain ⟨hfile, hyields⟩ := OpenFile.readWhole_of_front hnil turns
  refine ⟨hfile, hyields, hfile, ?_, ?_, read_fullTurns f⟩
  . intro program h
    obtain ⟨rfl, hinstallable⟩ := eq_content_of_read h
    exact ⟨rfl, hinstallable, install_of_installable hinstallable⟩
  . intro hfine henough
    rw [read_eq hfine henough]
    simp only [Option.some.injEq]
    exact ⟨OpenFile.readWhole_eq hfine henough, fun _ => ofBytes_eq_ok_iff,
      fun _ => ofBytes_eq_error_iff⟩

-- Two instructions, of which the last bytes have been read already.
def twoInstructions : OpenFile where
  content := [32, 0, 0, 0, 4, 0, 0, 0, 6, 0, 0, 0, 0, 0, 255, 127]
  position := 11

-- Short reads, each of them interrupted before.
def shortTurns : List OpenFile.Turn :=
  (List.replicate 17 [.interrupted, .upTo 5]).flatten

theorem read_whole_or_refused_of_twoInstructions
    : twoInstructions.content.length < shortTurns.countP OpenFile.Turn.isRead
        ∧ twoInstructions.readWhole [] shortTurns
            = (some (.ok twoInstructions.content), twoInstructions)
        ∧ (read twoInstructions shortTurns).1 = some (.ok twoInstructions.content)
        ∧ (install twoInstructions.content).count = 2
        ∧ (install twoInstructions.content).instructions
            = [⟨32, 0, 0, 4⟩, ⟨6, 0, 0, 0x7FFF0000⟩] := by
  have hfine : ∀ fault, .failed fault ∉ shortTurns := by
    intro fault
    unfold shortTurns
    simp
  have henough : twoInstructions.content.length < shortTurns.countP OpenFile.Turn.isRead := by
    decide
  have hinstallable : Installable twoInstructions.content := ⟨by decide, by decide, by decide⟩
  obtain ⟨_, _, _, hinstalled, hread, _⟩ := read_whole_or_refused twoInstructions shortTurns
  obtain ⟨hwhole, hok, _⟩ := hread hfine henough
  have haccepted := (hok _).mpr ⟨rfl, hinstallable⟩
  obtain ⟨_, _, _, hcount, _, _⟩ := hinstalled _ haccepted
  exact ⟨henough, hwhole, haccepted, UInt16.toNat_inj.mp hcount, rfl⟩

end Filter

end Enclosure
