import Enclosure.Proofs.Request.Strict
import Enclosure.Proofs.Verdict.RoundTrip

/-!
This module contains the faults for which requests are refused: which of them repeat a path of the
request, and whether a frame is large enough for what is told about them.
-/

namespace Enclosure

open Frame

theorem validatePath_error {path : String} (h : validatePath path = .error e)
    : e = .nulByte "mount path" ∨ e = .relativePath path ∨ e = .parentComponent path := by
  unfold validatePath at h
  split at h
  . exact .inl (Except.error.inj h).symm
  . split at h
    . exact .inr (.inl (Except.error.inj h).symm)
    . split at h
      . exact .inr (.inr (Except.error.inj h).symm)
      . contradiction

namespace RequestFault

theorem size_relativePath (path : String)
    : (relativePath path).message.utf8ByteSize = 29 + path.utf8ByteSize := by
  unfold message
  rw [String.utf8ByteSize_append]
  rfl

theorem size_parentComponent (path : String)
    : (parentComponent path).message.utf8ByteSize = 44 + path.utf8ByteSize := by
  unfold message
  rw [String.utf8ByteSize_append]
  rfl

def withoutPath : List RequestFault :=
  [emptyArgv, nulByte "argv", nulByte "env", nulByte "mount path", cpuBandwidth]

theorem size_withoutPath : ∀ e ∈ withoutPath, e.message.utf8ByteSize ≤ 100 := by
  decide +kernel

end RequestFault

theorem MountOp.size_path_le {op : MountOp} (h : path ∈ op.paths)
    : path.utf8ByteSize + 7 ≤ Item.totalSize Item.size op.items := by
  cases op with
  | bind m =>
    simp only [paths, List.mem_cons, List.not_mem_nil, or_false] at h
    simp only [items, Item.totalSize, Item.size, Item.textSize, List.foldr]
    cases h with
    | inl h => rw [h]; omega
    | inr h => rw [h]; omega
  | _ =>
    rw [paths, List.mem_singleton] at h
    simp only [items, Item.totalSize, Item.size, Item.textSize, List.foldr, h]
    omega

namespace Request

variable {r : Request F} {e : RequestFault}

theorem validate_eq (r : Request F)
    : r.validate =
        if r.argv.isEmpty then .error .emptyArgv
        else if r.argv.any Path.hasNul then .error (.nulByte "argv")
        else if r.env.any Path.hasNul then .error (.nulByte "env")
        else if !r.groupLimits.bandwidth.all CpuBandwidth.isValid then .error .cpuBandwidth
        else r.paths.forM validatePath := rfl

theorem validate_error (h : r.validate = .error e)
    : e ∈ RequestFault.withoutPath
        ∨ r.argv ≠ [] ∧ ∃ path ∈ r.paths, e = .relativePath path ∨ e = .parentComponent path := by
  have hknown {fault : RequestFault} (hfault : fault ∈ RequestFault.withoutPath)
      (h : (.error fault : Except RequestFault Unit) = .error e)
      : e ∈ RequestFault.withoutPath := Except.error.inj h ▸ hfault
  rw [validate_eq] at h
  split at h
  . exact .inl (hknown (by decide) h)
  . next hargv =>
    rw [List.isEmpty_iff] at hargv
    split at h
    . exact .inl (hknown (by decide) h)
    . split at h
      . exact .inl (hknown (by decide) h)
      . split at h
        . exact .inl (hknown (by decide) h)
        . obtain ⟨path, hpath, he⟩ := exists_of_forM_eq_error h
          cases validatePath_error he with
          | inl he =>
            rw [he]
            exact .inl (by decide)
          | inr he => exact .inr ⟨hargv, path, hpath, he⟩

theorem length_body_eq (r : Request F)
    : r.body.length
        = Item.totalSize Item.size r.headItems + Item.totalSize Item.size r.middleItems
            + Item.totalSize Item.size r.tailItems := by
  unfold body
  rw [Item.length_concat Item.encode Item.size _ Item.length_encode, Item.totalSize_append,
    Item.totalSize_append]

theorem size_headItems_le (h : r.argv ≠ []) : 13 ≤ Item.totalSize Item.size r.headItems := by
  obtain ⟨a, ha⟩ := List.exists_mem_of_ne_nil r.argv h
  have : 4 + a.utf8ByteSize ≤ Item.totalSize Item.textSize r.argv :=
    Item.size_le_totalSize Item.textSize ha
  simp only [headItems, Item.totalSize, Item.size, List.foldr] at this ⊢
  omega

theorem size_middleItems_le (r : Request F) : 15 ≤ Item.totalSize Item.size r.middleItems := by
  have hgroup : 3 ≤ r.groupLimits.items.length := by
    simp [GroupLimits.items]
  have hprocess : 6 ≤ r.processLimits.items.length := by
    simp [ProcessLimits.items]
  have hgroup := Nat.le_trans hgroup <|
    Item.length_le_totalSize Item.size r.groupLimits.items fun i _ => i.size_pos
  have hprocess := Nat.le_trans hprocess <|
    Item.length_le_totalSize Item.size r.processLimits.items fun i _ => i.size_pos
  have hrest : 6 ≤ Item.totalSize Item.size
      [.optU32 r.uid, .optU32 r.gid, .u32 (.ofNat r.mounts.length)] := by
    have := (Item.optU32 r.uid).size_pos
    have := (Item.optU32 r.gid).size_pos
    simp only [Item.totalSize, List.foldr, Item.size] at *
    omega
  unfold middleItems
  rw [Item.totalSize_append, Item.totalSize_append]
  omega

theorem size_tailItems_le (h : path ∈ r.paths)
    : path.utf8ByteSize + 7 ≤ Item.totalSize Item.size r.tailItems := by
  have htime := (Item.optDuration r.timeLimit).size_pos
  have hcpu := (Item.optDuration r.cpuTimeLimit).size_pos
  have hroot := (Item.optText r.newRoot).size_pos
  have hrest : Item.totalSize Item.size
      [.optText r.newRoot, .optDuration r.timeLimit, .optDuration r.cpuTimeLimit]
      = (Item.optText r.newRoot).size
          + ((Item.optDuration r.timeLimit).size + (Item.optDuration r.cpuTimeLimit).size) := rfl
  unfold tailItems
  rw [Item.totalSize_append, Item.totalSize_flatMap, hrest]
  unfold paths at h
  rw [List.mem_append, List.mem_flatMap, Option.mem_toList] at h
  -- The path belongs to a mount operation, or it is the new root.
  obtain ⟨op, hop, hpath⟩ | hpath := h
  . have := MountOp.size_path_le hpath
    have := Item.size_le_totalSize (fun op : MountOp => Item.totalSize Item.size op.items) hop
    omega
  . rw [hpath] at hroot ⊢
    simp only [Item.size, Option.map_some, Option.getD_some, Item.textSize]
    simp only [Item.size] at htime hcpu
    omega

theorem size_path_le (hargv : r.argv ≠ []) (hpath : path ∈ r.paths)
    : path.utf8ByteSize + 35 ≤ r.body.length := by
  have hhead := size_headItems_le hargv
  have hmiddle := size_middleItems_le r
  have htail := size_tailItems_le hpath
  rw [length_body_eq]
  omega

theorem size_message_le_iff (hbody : r.body.length ≤ maxBody) (h : r.validate = .error e)
    : e.message.utf8ByteSize + 5 ≤ maxBody
        ↔
      ∀ path, e = .parentComponent path → path.utf8ByteSize + 49 ≤ maxBody := by
  constructor
  . rintro hsize path rfl
    rw [RequestFault.size_parentComponent] at hsize
    omega
  . intro hfits
    obtain hbrief | ⟨hargv, path, hpath, rfl | rfl⟩ := validate_error h
    . have := RequestFault.size_withoutPath e hbrief
      have : 105 ≤ maxBody := by decide
      omega
    . have := size_path_le hargv hpath
      rw [RequestFault.size_relativePath]
      omega
    . have := hfits path rfl
      rw [RequestFault.size_parentComponent]
      omega

def climbing (pad : String) : Request F :=
  { argv := [""], processLimits := { coreSize := none }, newRoot := some ("/../" ++ pad) }

theorem validatePath_climbing {pad : String} (h : Path.hasNul pad = false)
    : validatePath ("/../" ++ pad) = .error (.parentComponent ("/../" ++ pad)) := by
  have htext : ("/../" ++ pad).toList = '/' :: '.' :: '.' :: '/' :: pad.toList :=
    String.toList_append
  have hnul : Path.hasNul ("/../" ++ pad) = false := by
    unfold Path.hasNul at h ⊢
    rw [htext]
    simpa using h
  have habsolute : Path.isAbsolute ("/../" ++ pad) = true := by
    unfold Path.isAbsolute
    rw [htext]
    rfl
  have hclimbs : Path.climbs ("/../" ++ pad) = true := by
    unfold Path.climbs Path.components
    rw [htext]
    simp [Path.componentsFrom, Path.Component.ofSegment?]
  unfold validatePath
  simp only [hnul, habsolute, hclimbs, Bool.not_true, Bool.false_eq_true, if_false, if_true]

theorem validate_climbing {pad : String} (h : Path.hasNul pad = false)
    : (climbing pad : Request F).validate = .error (.parentComponent ("/../" ++ pad)) := by
  have hargv : [""].any Path.hasNul = false := rfl
  rw [validate_eq]
  change (if [""].any Path.hasNul = true then _ else validatePath ("/../" ++ pad) >>= _) = _
  rw [hargv, validatePath_climbing h]
  rfl

theorem length_body_climbing (pad : String)
    : (climbing pad : Request F).body.length = pad.utf8ByteSize + 39 := by
  have hhead : Item.totalSize Item.size (climbing pad : Request F).headItems = 13 := rfl
  have hmiddle : Item.totalSize Item.size (climbing pad : Request F).middleItems = 15 := rfl
  have htail : Item.totalSize Item.size (climbing pad : Request F).tailItems
      = 1 + (4 + ("/../" ++ pad).utf8ByteSize) + 2 := rfl
  have hroot : ("/../" ++ pad).utf8ByteSize = 4 + pad.utf8ByteSize := String.utf8ByteSize_append
  rw [length_body_eq, hhead, hmiddle, htail, hroot]
  omega

theorem decode_climbing (pad : String) (h : pad.utf8ByteSize + 39 ≤ maxBody)
    : decode (climbing pad : Request F).body ([] : List F) = (.ok (climbing pad), []) := by
  have hlengths : (climbing pad : Request F).LengthsFit := by
    apply lengthsFit_of_length_body_lt
    rw [length_body_climbing]
    exact Nat.lt_of_le_of_lt h (by decide)
  exact decode_body (climbing pad) hlengths []

theorem exists_pad (n : Nat) : ∃ pad : String, pad.utf8ByteSize = n ∧ Path.hasNul pad = false := by
  induction n with
  | zero => exact ⟨"", rfl, rfl⟩
  | succ n ih =>
    obtain ⟨pad, hsize, hnul⟩ := ih
    refine ⟨pad ++ "a", ?_, ?_⟩
    . rw [String.utf8ByteSize_append, hsize]
      rfl
    . unfold Path.hasNul at hnul ⊢
      rw [String.toList_append]
      simpa using hnul

end Request
end Enclosure
