import ClassText.Instruction.Decoding
import ClassText.Proofs.Bytes.Takes
import ClassText.Proofs.Instruction.Form

/-!
# Instructions are read as they are written

An instruction is written with the distances to its targets, and is read with
their offsets in the place of labels. Well-formed instructions that are written
are read so again (`takes_of_encode`). What is read is well formed, takes as
many bytes as its size says, and jumps no further than its form allows
(`read_spec`); so it can be written.
-/

namespace ClassText.Instruction

open ByteReader Bytes

variable {used : Bytes} {offset : Nat} {insn : Instruction}

/-! ## Jumps -/

theorem takes_absolute {distance : Int} {target : Nat} :
    (absolute offset distance).Takes used target ↔
      used = [] ∧ (target : Int) = offset + distance := by
  simp only [absolute]
  split
  · exact ⟨fun h => (takes_fail h).elim, fun h => by omega⟩
  · rw [takes_pure]
    exact and_congr_right fun _ => by omega

theorem takes_readTarget {target : Nat} :
    (readTarget offset).Takes used target ↔
      ∃ d : Int32, used = word32 d.toUInt32 ∧ (target : Int) = offset + d.toInt := by
  rw [readTarget, takes_bind]
  constructor
  · rintro ⟨first, second, d, rfl, hd, htarget⟩
    obtain ⟨rfl, heq⟩ := takes_absolute.mp htarget
    exact ⟨d, by rw [takes_int32.mp hd, List.append_nil], heq⟩
  · rintro ⟨d, rfl, htarget⟩
    exact ⟨_, [], d, (List.append_nil _).symm, takes_int32.mpr rfl,
      takes_absolute.mpr ⟨rfl, htarget⟩⟩

section Jumps

variable {offsets : Array Nat} {target : Label}

/-- A long jump is read again. Offsets that are this small have small distances. -/
theorem takes_longJump (hoffset : offset ≤ 65535) (htarget : offsets.getD target 0 ≤ 65535) :
    (readTarget offset).Takes (longJump offsets offset target) (offsets.getD target 0) := by
  refine takes_readTarget.mpr ⟨_, rfl, ?_⟩
  rw [displacement, Int32.toInt_ofInt_of_le (by omega) (by omega)]
  omega

theorem takes_shortJump {jump : Bytes} (h : shortJump offsets offset target = .ok jump) :
    (do absolute offset (← int16).toInt).Takes jump (offsets.getD target 0) := by
  simp only [shortJump] at h
  split at h
  · next hfits =>
    cases h
    rw [← List.append_nil (word16 _)]
    refine Takes.bind (takes_int16.mpr rfl) (takes_absolute.mpr ⟨rfl, ?_⟩)
    rw [Int16.toInt_ofInt_of_le (by omega) (by omega), displacement]
    omega
  · cases h

/-- Only a jump that is too far cannot be written. -/
theorem exists_encode (h : (insn.mapLabels fun l => offsets.getD l 0).JumpFits offset) :
    ∃ bytes, insn.encode offsets offset = .ok bytes := by
  cases insn with
  | branch opcode target =>
    rw [encode]
    split
    · exact ⟨_, rfl⟩
    · next hlong =>
      have hfits : -32768 ≤ displacement offsets offset target ∧
          displacement offsets offset target ≤ 32767 := h.resolve_left hlong
      exact ⟨_, by rw [shortJump, if_pos hfits]; rfl⟩
  | _ => exact ⟨_, rfl⟩

end Jumps

/-! ## What is written is read -/

theorem toUInt16_toUInt8 {index : UInt16} (h : index.toNat ≤ 255) :
    index.toUInt8.toUInt16 = index := by
  apply UInt16.toNat_inj.mp
  rw [UInt8.toNat_toUInt16, UInt16.toNat_toUInt8]
  omega

theorem takes_of_operands {opcode : Opcode} (h : (readOperands offset opcode).Takes used insn) :
    (read offset).Takes (opcode :: used) insn :=
  Takes.bind (takes_byte.mpr rfl) h

theorem takes_slot {opcode : Opcode} {index : UInt16} {form : SlotForm} {bytes : Bytes}
    {offsets : Array Nat} (hwell : (slot opcode index form).IsWellFormed)
    (h : (slot opcode index form).encode offsets offset = .ok bytes) :
    (read offset).Takes bytes (slot opcode index form) := by
  obtain ⟨hop, hform⟩ := hwell
  have hsimple := (Opcode.families_disjoint opcode).1 hop
  rw [encode, hform] at h
  cases form with
  | short =>
    cases h
    obtain ⟨hindex, hret⟩ := writtenForm_short.mp hform
    have hslot := Opcode.ofShortSlot?_shortSlot hop hret hindex
    obtain ⟨h1, h2, h3, h4, h5⟩ := Opcode.no_family_of_ofShortSlot? hslot
    refine takes_of_operands ?_
    simp only [readOperands, hslot, h1, h2, h3, h4, h5, Bool.false_eq_true, if_false]
    exact takes_pure.mpr ⟨rfl, rfl⟩
  | normal =>
    cases h
    have hindex := toUInt16_toUInt8 (writtenForm_normal.mp hform)
    refine takes_of_operands ?_
    rw [readOperands, hsimple, if_neg Bool.false_ne_true, if_pos hop]
    exact takes_map.mpr ⟨_, takes_byte.mpr rfl, by rw [hindex]⟩
  | wide =>
    cases h
    have hiinc : opcode ≠ Opcode.iinc := by
      rintro rfl
      exact absurd hop (by decide)
    refine takes_of_operands ?_
    show (readWide offset).Takes ([opcode] ++ word16 index) _
    refine Takes.bind (takes_byte.mpr rfl) ?_
    rw [if_neg hiinc, if_pos hop]
    exact takes_map.mpr ⟨index, takes_word16.mpr rfl, rfl⟩

theorem takes_increment {index : UInt16} {step : Int16} {wide : Bool} {bytes : Bytes}
    {offsets : Array Nat} (hwell : (increment index step wide).IsWellFormed)
    (h : (increment index step wide).encode offsets offset = .ok bytes) :
    (read offset).Takes bytes (increment index step wide) := by
  rw [encode, show isWideIncrement index step wide = wide from hwell] at h
  cases wide with
  | true =>
    cases h
    refine takes_of_operands ?_
    show (readWide offset).Takes ([Opcode.iinc] ++ (word16 index ++ word16 step.toUInt16)) _
    refine Takes.bind (takes_byte.mpr rfl) (Takes.bind (takes_word16.mpr rfl) ?_)
    exact takes_map.mpr ⟨step, takes_int16.mpr rfl, rfl⟩
  | false =>
    cases h
    have hnarrow : ¬255 < index.toNat ∧ fitsByte step = true := by
      simpa [IsWellFormed, isWideIncrement] using hwell
    have hindex := toUInt16_toUInt8 (Nat.le_of_not_lt hnarrow.1)
    have hstep : step.toInt8.toInt16 = step := by
      have hfits := hnarrow.2
      simp only [fitsByte, Bool.and_eq_true, decide_eq_true_eq] at hfits
      apply Int16.toInt_inj.mp
      rw [Int8.toInt_toInt16, Int16.toInt_toInt8]
      exact Int.bmod_eq_of_le (by omega) (by omega)
    refine takes_of_operands ?_
    show (do return increment (← byte).toUInt16 (← int8).toInt16 false : ByteReader _).Takes
      ([index.toUInt8] ++ [step.toInt8.toUInt8]) _
    refine Takes.bind (takes_byte.mpr rfl) ?_
    exact takes_map.mpr ⟨_, takes_int8.mpr rfl, by rw [hindex, hstep]⟩

section Labels

variable {offsets : Array Nat} {bytes : Bytes}

theorem takes_branch {opcode : Opcode} {target : Label}
    (hwell : (branch opcode target).IsWellFormed) (hoffset : offset ≤ 65535)
    (hlabels : ∀ l : Label, offsets.getD l 0 ≤ 65535)
    (h : (branch opcode target).encode offsets offset = .ok bytes) :
    (read offset).Takes bytes (branch opcode (offsets.getD target 0)) := by
  obtain ⟨-, hshort, hlong, -⟩ := Opcode.families_disjoint opcode
  rw [encode] at h
  rcases hwell with hop | hop
  · obtain ⟨h1, h2, h3⟩ := hshort hop
    rw [h3, if_neg Bool.false_ne_true] at h
    obtain ⟨jump, hjump, h⟩ := Success.bind_eq_ok.mp h
    cases h
    refine takes_of_operands ?_
    rw [readOperands, h1, h2, if_neg Bool.false_ne_true, if_neg Bool.false_ne_true, if_pos hop]
    obtain ⟨first, second, d, rfl, hd, habsolute⟩ := takes_bind.mp (takes_shortJump hjump)
    exact Takes.bind hd (takes_map.mpr ⟨_, habsolute, rfl⟩)
  · obtain ⟨h1, h2, h3⟩ := hlong hop
    rw [hop, if_pos rfl] at h
    cases h
    refine takes_of_operands ?_
    rw [readOperands, h1, h2, h3, if_neg Bool.false_ne_true, if_neg Bool.false_ne_true,
      if_neg Bool.false_ne_true, if_pos hop]
    exact takes_map.mpr ⟨_, takes_longJump hoffset (hlabels target), rfl⟩

theorem takes_padding : (take (switchPadding offset)).Takes
    (List.replicate (switchPadding offset) 0) (List.replicate (switchPadding offset) 0) :=
  takes_take.mpr ⟨rfl, List.length_replicate⟩

theorem takes_tableSwitch {default : Label} {low : Int32} {targets : List Label}
    (hwell : (tableSwitch default low targets).IsWellFormed) (hoffset : offset ≤ 65535)
    (hlabels : ∀ l : Label, offsets.getD l 0 ≤ 65535)
    (h : (tableSwitch default low targets).encode offsets offset = .ok bytes) :
    (read offset).Takes bytes
      ((tableSwitch default low targets).mapLabels fun l => offsets.getD l 0) := by
  obtain ⟨hne, hbound⟩ := hwell
  have hpos : 0 < targets.length := List.length_pos_iff.mpr hne
  have hlow := low.le_toInt
  have hhigh : (Int32.ofInt (low.toInt + targets.length - 1)).toInt =
      low.toInt + targets.length - 1 := Int32.toInt_ofInt_of_le (by omega) (by omega)
  have hparts : List.Forall₂ (readTarget offset).Takes (targets.map (longJump offsets offset))
      (targets.map fun l => offsets.getD l 0) := by
    rw [List.forall₂_map_left_iff, List.forall₂_map_right_iff, List.forall₂_same]
    exact fun t _ => takes_longJump hoffset (hlabels t)
  rw [encode] at h
  cases h
  simp only [List.cons_append, List.append_assoc, List.flatMap_def]
  refine takes_of_operands ?_
  show (readTableSwitch offset).Takes _ _
  refine takes_padding.bind ((takes_longJump hoffset (hlabels default)).bind ?_)
  refine Takes.bind (takes_int32.mpr rfl) (Takes.bind (takes_int32.mpr rfl) ?_)
  rw [hhigh, if_neg (by omega)]
  refine takes_map.mpr ⟨_, takes_times.mpr ⟨_, hparts, ?_, rfl⟩, rfl⟩
  rw [List.length_map]
  omega

theorem takes_lookupSwitch {default : Label} {pairs : List (Int32 × Label)}
    (hwell : (lookupSwitch default pairs).IsWellFormed) (hoffset : offset ≤ 65535)
    (hlabels : ∀ l : Label, offsets.getD l 0 ≤ 65535)
    (h : (lookupSwitch default pairs).encode offsets offset = .ok bytes) :
    (read offset).Takes bytes
      ((lookupSwitch default pairs).mapLabels fun l => offsets.getD l 0) := by
  have hlen : pairs.length < 2 ^ 31 := hwell
  have hword : word32 (.ofNat pairs.length) =
      word32 (Int32.ofInt pairs.length).toUInt32 := by
    rw [Int32.ofInt_eq_ofNat]
    rfl
  have hcount : (Int32.ofInt pairs.length).toInt = pairs.length :=
    Int32.toInt_ofInt_of_le (by omega) (by omega)
  have hparts : List.Forall₂
      (do return ((← int32), (← readTarget offset)) : ByteReader (Int32 × Nat)).Takes
      (pairs.map fun pair => word32 pair.1.toUInt32 ++ longJump offsets offset pair.2)
      (pairs.map fun pair => (pair.1, offsets.getD pair.2 0)) := by
    rw [List.forall₂_map_left_iff, List.forall₂_map_right_iff, List.forall₂_same]
    exact fun pair _ => Takes.bind (takes_int32.mpr rfl)
      (takes_map.mpr ⟨_, takes_longJump hoffset (hlabels pair.2), rfl⟩)
  rw [encode, hword] at h
  cases h
  simp only [List.cons_append, List.append_assoc, List.flatMap_def]
  refine takes_of_operands ?_
  show (readLookupSwitch offset).Takes _ _
  refine takes_padding.bind ((takes_longJump hoffset (hlabels default)).bind ?_)
  refine Takes.bind (takes_int32.mpr rfl) ?_
  rw [hcount, if_neg (by omega)]
  refine takes_map.mpr ⟨_, takes_times.mpr ⟨_, hparts, ?_, rfl⟩, rfl⟩
  rw [List.length_map]
  omega

/-- Well-formed instructions are read as they were written, with offsets for labels. -/
theorem takes_of_encode (hwell : insn.IsWellFormed) (hoffset : offset ≤ 65535)
    (hlabels : ∀ l : Label, offsets.getD l 0 ≤ 65535)
    (h : insn.encode offsets offset = .ok bytes) :
    (read offset).Takes bytes (insn.mapLabels fun l => offsets.getD l 0) := by
  cases insn with
  | simple opcode =>
    cases h
    refine takes_of_operands ?_
    rw [readOperands, if_pos (show opcode.isSimple = true from hwell)]
    exact takes_pure.mpr ⟨rfl, rfl⟩
  | slot opcode index form => exact takes_slot hwell h
  | increment index step wide => exact takes_increment hwell h
  | branch opcode target => exact takes_branch hwell hoffset hlabels h
  | tableSwitch default low targets => exact takes_tableSwitch hwell hoffset hlabels h
  | lookupSwitch default pairs => exact takes_lookupSwitch hwell hoffset hlabels h
  | loadConstant index wide =>
    rw [encode, show isWideLoad index wide = wide from hwell] at h
    cases h
    cases wide with
    | true => exact takes_of_operands (takes_map.mpr ⟨index, takes_word16.mpr rfl, rfl⟩)
    | false =>
      have hle : index.toNat ≤ 255 := by simpa [IsWellFormed, isWideLoad] using hwell
      have hindex := toUInt16_toUInt8 hle
      refine takes_of_operands (takes_map.mpr ⟨_, takes_byte.mpr rfl, ?_⟩)
      rw [hindex]
      rfl
  | constantRef opcode index =>
    cases h
    obtain ⟨h1, h2, h3, h4⟩ := (Opcode.families_disjoint opcode).2.2.2 hwell
    refine takes_of_operands ?_
    simp only [readOperands, h1, h2, h3, h4, Bool.false_eq_true, if_false]
    rw [if_pos (show opcode.isConstantRef = true from hwell)]
    exact takes_map.mpr ⟨index, takes_word16.mpr rfl, rfl⟩
  | pushByte value =>
    cases h
    exact takes_of_operands (takes_map.mpr ⟨value, takes_int8.mpr rfl, rfl⟩)
  | pushShort value =>
    cases h
    exact takes_of_operands (takes_map.mpr ⟨value, takes_int16.mpr rfl, rfl⟩)
  | loadWideConstant index =>
    cases h
    exact takes_of_operands (takes_map.mpr ⟨index, takes_word16.mpr rfl, rfl⟩)
  | invokeInterface index count =>
    cases h
    refine takes_of_operands ?_
    exact Takes.bind (takes_word16.mpr rfl)
      (Takes.bind (takes_byte.mpr rfl) (takes_map.mpr ⟨0, takes_byte.mpr rfl, rfl⟩))
  | invokeDynamic index =>
    cases h
    refine takes_of_operands ?_
    exact Takes.bind (takes_word16.mpr rfl) (takes_map.mpr ⟨0, takes_word16.mpr rfl, rfl⟩)
  | newArray code =>
    cases h
    exact takes_of_operands (takes_map.mpr ⟨code, takes_byte.mpr rfl, rfl⟩)
  | newMultiArray index dimensions =>
    cases h
    refine takes_of_operands ?_
    exact Takes.bind (takes_word16.mpr rfl)
      (takes_map.mpr ⟨dimensions, takes_byte.mpr rfl, rfl⟩)

end Labels

/-! ## What is read can be written -/

/-- The bytes that reading skips: those between the opcode of a switch and its operands, and the
last ones of two kinds of calls. -/
def Skips (offset : Nat) : Instruction → Nat → Prop
  | tableSwitch .., o | lookupSwitch .., o => offset < o ∧ o ≤ offset + switchPadding offset
  | invokeInterface .., o => o = offset + 4
  | invokeDynamic _, o => o = offset + 3 ∨ o = offset + 4
  | _, _ => False

/-- The second bytes are the first ones with zeros in the place of all that reading skips. -/
def Blanks (offset : Nat) (insn : Instruction) (used part : Bytes) : Prop :=
  part.length = used.length ∧ ∀ i, (insn.Skips offset (offset + i) → part[i]? = some 0) ∧
    (¬insn.Skips offset (offset + i) → part[i]? = used[i]?)

theorem blanks_refl (h : ∀ o, ¬insn.Skips offset o) : insn.Blanks offset used used :=
  ⟨rfl, fun i => ⟨fun hskips => (h (offset + i) hskips).elim, fun _ => rfl⟩⟩

theorem blanks_gap (before gap after : Bytes)
    (h : ∀ i, insn.Skips offset (offset + i) ↔
      before.length ≤ i ∧ i < before.length + gap.length) :
    insn.Blanks offset (before ++ (gap ++ after))
      (before ++ (List.replicate gap.length 0 ++ after)) := by
  refine ⟨by simp only [List.length_append, List.length_replicate], fun i => ?_⟩
  rw [h i]
  simp only [List.getElem?_append, List.length_replicate, List.getElem?_replicate]
  constructor
  · rintro ⟨hle, hlt⟩
    rw [if_neg (by omega), if_pos (by omega), if_pos (by omega)]
  · intro hout
    split
    · rfl
    · rw [if_neg (by omega), if_neg (by omega)]

/-- What an instruction has when it is read from these bytes at an offset. Written down again,
with labels for offsets, it has them except for what was skipped. -/
structure IsRead (offset : Nat) (used : Bytes) (insn : Instruction) : Prop where
  isWellFormed : insn.IsWellFormed
  jumpFits : insn.JumpFits offset
  size_eq : insn.size offset = used.length
  blanks : ∀ {offsets : Array Nat} {source : Instruction} {part : Bytes},
    source.mapLabels (fun l => offsets.getD l 0) = insn →
      source.encode offsets offset = .ok part → insn.Blanks offset used part

theorem eq_of_mapLabels {f : Label → Label} {source : Instruction} (htargets : insn.targets = [])
    (h : source.mapLabels f = insn) : source = insn := by
  cases source with
  | branch | tableSwitch | lookupSwitch =>
    cases h
    cases htargets
  | _ => exact h

/-- An instruction that does not jump is written without regard to labels. -/
theorem isRead_plain {part : Bytes} (htargets : insn.targets = []) (hwell : insn.IsWellFormed)
    (hsize : insn.size offset = used.length)
    (hencode : ∀ offsets, insn.encode offsets offset = .ok part)
    (hblanks : insn.Blanks offset used part) : insn.IsRead offset used := by
  refine ⟨hwell, ?_, hsize, ?_⟩
  · cases insn with
    | branch => cases htargets
    | _ => trivial
  · intro offsets source part' hsource hpart'
    rw [eq_of_mapLabels htargets hsource, hencode offsets] at hpart'
    exact Except.ok.inj hpart' ▸ hblanks

theorem length_readTarget {target : Nat} (h : (readTarget offset).Takes used target) :
    used.length = 4 := by
  obtain ⟨d, rfl, -⟩ := takes_readTarget.mp h
  rfl

theorem length_flatten_of_forall₂ {α : Type} {item : ByteReader α} {n : Nat}
    (hitem : ∀ {part : Bytes} {a : α}, item.Takes part a → part.length = n) :
    ∀ {parts : List Bytes} {items : List α}, List.Forall₂ item.Takes parts items →
      parts.flatten.length = n * items.length
  | _, _, .nil => rfl
  | _, _, .cons hpart hrest => by
    rw [List.flatten_cons, List.length_append, hitem hpart,
      length_flatten_of_forall₂ hitem hrest, List.length_cons, Nat.mul_succ, Nat.add_comm]

section Distances

variable {offsets : Array Nat} {target : Label}

/-- The distance of a target that was read is written with the same bytes. -/
theorem longJump_of_readTarget (h : (readTarget offset).Takes used (offsets.getD target 0)) :
    longJump offsets offset target = used := by
  obtain ⟨d, rfl, heq⟩ := takes_readTarget.mp h
  have hd : displacement offsets offset target = d.toInt := by
    rw [displacement]
    omega
  rw [longJump, hd, Int32.ofInt_toInt]

theorem shortJump_of_distance {d : Int16} {jump : Bytes}
    (htarget : (offsets.getD target 0 : Int) = offset + d.toInt)
    (h : shortJump offsets offset target = .ok jump) : jump = word16 d.toUInt16 := by
  have hd : displacement offsets offset target = d.toInt := by
    rw [displacement]
    omega
  simp only [shortJump, hd] at h
  split at h
  · rw [← Except.ok.inj h, Int16.ofInt_toInt]
  · cases h

theorem flatMap_of_forall₂ {α β : Type} {item : ByteReader β} {f : α → β} {g : α → Bytes}
    (hitem : ∀ {part : Bytes} {a : α}, item.Takes part (f a) → g a = part) :
    ∀ {parts : List Bytes} {items : List α}, List.Forall₂ item.Takes parts (items.map f) →
      items.flatMap g = parts.flatten
  | _, [], .nil => rfl
  | _, _ :: _, .cons hpart hrest => by
    rw [List.flatMap_cons, List.flatten_cons, hitem hpart, flatMap_of_forall₂ hitem hrest]

end Distances

theorem skips_switch_iff {opcode : Opcode} {padding : Bytes} {i : Nat}
    (hpad : padding.length = switchPadding offset) :
    offset < offset + i ∧ offset + i ≤ offset + switchPadding offset ↔
      [opcode].length ≤ i ∧ i < [opcode].length + padding.length := by
  rw [hpad, List.length_singleton]
  omega

theorem readTableSwitch_spec (h : (readTableSwitch offset).Takes used insn) :
    insn.IsRead offset (Opcode.tableSwitch :: used) := by
  obtain ⟨padding, _, _, rfl, hpadding, h⟩ := takes_bind.mp h
  obtain ⟨first, _, default, rfl, hdefault, h⟩ := takes_bind.mp h
  obtain ⟨second, _, low, rfl, hlow, h⟩ := takes_bind.mp h
  obtain ⟨third, rest, high, rfl, hhigh, h⟩ := takes_bind.mp h
  obtain ⟨rfl, hpad⟩ := takes_take.mp hpadding
  split at h
  · exact (takes_fail h).elim
  · next hle =>
    obtain ⟨targets, htargets, rfl⟩ := takes_map.mp h
    obtain ⟨parts, hparts, hcount, rfl⟩ := takes_times.mp htargets
    have hlt := high.toInt_lt
    obtain rfl := takes_int32.mp hlow
    obtain rfl := takes_int32.mp hhigh
    refine ⟨⟨?_, by omega⟩, trivial, ?_, ?_⟩
    · rintro rfl
      simp only [List.length_nil] at hcount
      omega
    · simp only [List.length_cons, List.length_append, hpad, length_readTarget hdefault,
        length_flatten_of_forall₂ length_readTarget hparts, length_word32, size]
      omega
    · intro offsets source part hsource hpart
      cases source with
      | tableSwitch default' low' targets' =>
        obtain ⟨rfl, rfl, rfl⟩ := tableSwitch.inj hsource
        rw [List.length_map] at hcount
        have hlast : low'.toInt + targets'.length - 1 = high.toInt := by omega
        rw [encode, longJump_of_readTarget hdefault,
          flatMap_of_forall₂ longJump_of_readTarget hparts, hlast, Int32.ofInt_toInt] at hpart
        obtain rfl := Except.ok.inj hpart
        simp only [List.cons_append, List.append_assoc, ← hpad]
        exact blanks_gap [_] _ _ fun i => skips_switch_iff hpad
      | _ => cases hsource

theorem readLookupSwitch_spec (h : (readLookupSwitch offset).Takes used insn) :
    insn.IsRead offset (Opcode.lookupSwitch :: used) := by
  obtain ⟨padding, _, _, rfl, hpadding, h⟩ := takes_bind.mp h
  obtain ⟨first, _, default, rfl, hdefault, h⟩ := takes_bind.mp h
  obtain ⟨second, rest, count, rfl, hcount, h⟩ := takes_bind.mp h
  obtain ⟨rfl, hpad⟩ := takes_take.mp hpadding
  split at h
  · exact (takes_fail h).elim
  · next hle =>
    obtain ⟨pairs, hpairs, rfl⟩ := takes_map.mp h
    obtain ⟨parts, hparts, hlen, rfl⟩ := takes_times.mp hpairs
    have hlt := count.toInt_lt
    obtain rfl := takes_int32.mp hcount
    have hpair : ∀ {part : Bytes} {pair : Int32 × Nat},
        (do return ((← int32), (← readTarget offset)) : ByteReader _).Takes part pair →
          ∃ target, part = word32 pair.1.toUInt32 ++ target ∧
            (readTarget offset).Takes target pair.2 := by
      intro part pair h
      obtain ⟨key, target, _, rfl, hkey, h⟩ := takes_bind.mp h
      obtain ⟨_, htarget, rfl⟩ := takes_map.mp h
      exact ⟨target, by rw [takes_int32.mp hkey], htarget⟩
    have hpairLength : ∀ {part : Bytes} {pair : Int32 × Nat},
        (do return ((← int32), (← readTarget offset)) : ByteReader _).Takes part pair →
          part.length = 8 := by
      intro part pair h
      obtain ⟨target, rfl, htarget⟩ := hpair h
      rw [List.length_append, length_word32, length_readTarget htarget]
    refine ⟨show pairs.length < 2 ^ 31 by omega, trivial, ?_, ?_⟩
    · simp only [List.length_cons, List.length_append, hpad, length_readTarget hdefault,
        length_flatten_of_forall₂ hpairLength hparts, length_word32, size]
      omega
    · intro offsets source part hsource hpart
      cases source with
      | lookupSwitch default' pairs' =>
        obtain ⟨rfl, rfl⟩ := lookupSwitch.inj hsource
        rw [List.length_map] at hlen
        have hword : word32 (.ofNat pairs'.length) = word32 count.toUInt32 := by
          have hint : (pairs'.length : Int) = count.toInt := by omega
          rw [← Int32.ofInt_toInt count, ← hint, Int32.ofInt_eq_ofNat]
          rfl
        have hwritten : ∀ {part : Bytes} {pair : Int32 × Label},
            (do return ((← int32), (← readTarget offset)) : ByteReader _).Takes part
              (pair.1, offsets.getD pair.2 0) →
            word32 pair.1.toUInt32 ++ longJump offsets offset pair.2 = part := by
          intro part pair h
          obtain ⟨target, rfl, htarget⟩ := hpair h
          rw [longJump_of_readTarget htarget]
        rw [encode, longJump_of_readTarget hdefault, flatMap_of_forall₂ hwritten hparts,
          hword] at hpart
        obtain rfl := Except.ok.inj hpart
        simp only [List.cons_append, List.append_assoc, ← hpad]
        exact blanks_gap [_] _ _ fun i => skips_switch_iff hpad
      | _ => cases hsource

theorem isWideIncrement_narrow (index : UInt8) (step : Int8) :
    isWideIncrement index.toUInt16 step.toInt16 false = false := by
  have hindex := index.toNat_lt
  have hlow := step.le_toInt
  have hhigh := step.toInt_lt
  simp only [isWideIncrement, fitsByte, UInt8.toNat_toUInt16, Int8.toInt_toInt16, Bool.false_or,
    Bool.or_eq_false_iff, decide_eq_false_iff_not, Bool.not_eq_false', Bool.and_eq_true,
    decide_eq_true_eq]
  omega

theorem readWide_spec (h : (readWide offset).Takes used insn) :
    insn.IsRead offset (Opcode.wide :: used) := by
  obtain ⟨_, _, opcode, rfl, hopcode, h⟩ := takes_bind.mp h
  rw [takes_byte.mp hopcode]
  split at h
  · next hiinc =>
    obtain ⟨_, _, index, rfl, hindex, h⟩ := takes_bind.mp h
    obtain ⟨step, hstep, rfl⟩ := takes_map.mp h
    rw [takes_word16.mp hindex, takes_int16.mp hstep, hiinc]
    exact isRead_plain rfl rfl rfl (fun _ => rfl) (blanks_refl fun _ => id)
  · split at h
    · next hop =>
      obtain ⟨index, hindex, rfl⟩ := takes_map.mp h
      rw [takes_word16.mp hindex]
      exact isRead_plain rfl ⟨hop, writtenForm_wide⟩ (by rw [size, writtenForm_wide]; rfl)
        (fun _ => by rw [encode, writtenForm_wide]; rfl) (blanks_refl fun _ => id)
    · exact (takes_fail h).elim

theorem readSpecial_spec {opcode : Opcode} (h : (readSpecial offset opcode).Takes used insn) :
    insn.IsRead offset (opcode :: used) := by
  unfold readSpecial at h
  split at h
  case h_1 =>
    obtain ⟨value, hvalue, rfl⟩ := takes_map.mp h
    rw [takes_int8.mp hvalue]
    exact isRead_plain rfl trivial rfl (fun _ => rfl) (blanks_refl fun _ => id)
  case h_2 =>
    obtain ⟨value, hvalue, rfl⟩ := takes_map.mp h
    rw [takes_int16.mp hvalue]
    exact isRead_plain rfl trivial rfl (fun _ => rfl) (blanks_refl fun _ => id)
  case h_3 =>
    obtain ⟨index, hindex, rfl⟩ := takes_map.mp h
    have hnarrow : isWideLoad index.toUInt16 false = false := by
      have hlt := index.toNat_lt
      simp only [isWideLoad, UInt8.toNat_toUInt16, Bool.false_or, decide_eq_false_iff_not]
      omega
    rw [takes_byte.mp hindex]
    exact isRead_plain rfl hnarrow (by rw [size, hnarrow]; rfl)
      (fun _ => by rw [encode, hnarrow, UInt8.toUInt8_toUInt16]; rfl) (blanks_refl fun _ => id)
  case h_4 =>
    obtain ⟨index, hindex, rfl⟩ := takes_map.mp h
    rw [takes_word16.mp hindex]
    exact isRead_plain rfl rfl rfl (fun _ => rfl) (blanks_refl fun _ => id)
  case h_5 =>
    obtain ⟨index, hindex, rfl⟩ := takes_map.mp h
    rw [takes_word16.mp hindex]
    exact isRead_plain rfl trivial rfl (fun _ => rfl) (blanks_refl fun _ => id)
  case h_6 =>
    obtain ⟨_, _, index, rfl, hindex, h⟩ := takes_bind.mp h
    obtain ⟨step, hstep, rfl⟩ := takes_map.mp h
    have hnarrow := isWideIncrement_narrow index step
    rw [takes_byte.mp hindex, takes_int8.mp hstep]
    exact isRead_plain rfl hnarrow (by rw [size, hnarrow]; rfl)
      (fun _ => by rw [encode, hnarrow, UInt8.toUInt8_toUInt16, Int8.toInt8_toInt16]; rfl)
      (blanks_refl fun _ => id)
  case h_7 => exact readWide_spec h
  case h_8 => exact readTableSwitch_spec h
  case h_9 => exact readLookupSwitch_spec h
  case h_10 =>
    obtain ⟨_, _, index, rfl, hindex, h⟩ := takes_bind.mp h
    obtain ⟨_, _, count, rfl, hcount, h⟩ := takes_bind.mp h
    obtain ⟨last, hlast, rfl⟩ := takes_map.mp h
    rw [takes_word16.mp hindex, takes_byte.mp hcount, takes_byte.mp hlast]
    refine isRead_plain rfl trivial rfl (fun _ => rfl) ?_
    refine blanks_gap (Opcode.invokeInterface :: (word16 index ++ [count])) [last] [] fun i => ?_
    show offset + i = offset + 4 ↔ 4 ≤ i ∧ i < 4 + 1
    omega
  case h_11 =>
    obtain ⟨_, _, index, rfl, hindex, h⟩ := takes_bind.mp h
    obtain ⟨last, hlast, rfl⟩ := takes_map.mp h
    rw [takes_word16.mp hindex, takes_word16.mp hlast]
    refine isRead_plain rfl trivial rfl (fun _ => rfl) ?_
    refine blanks_gap (Opcode.invokeDynamic :: word16 index) (word16 last) [] fun i => ?_
    show offset + i = offset + 3 ∨ offset + i = offset + 4 ↔ 3 ≤ i ∧ i < 3 + 2
    omega
  case h_12 =>
    obtain ⟨code, hcode, rfl⟩ := takes_map.mp h
    rw [takes_byte.mp hcode]
    exact isRead_plain rfl trivial rfl (fun _ => rfl) (blanks_refl fun _ => id)
  case h_13 =>
    obtain ⟨_, _, index, rfl, hindex, h⟩ := takes_bind.mp h
    obtain ⟨dimensions, hdimensions, rfl⟩ := takes_map.mp h
    rw [takes_word16.mp hindex, takes_byte.mp hdimensions]
    exact isRead_plain rfl trivial rfl (fun _ => rfl) (blanks_refl fun _ => id)
  case h_14 => exact (takes_fail h).elim

theorem readShortBranch_spec {opcode : Opcode} (hop : opcode.isShortBranch = true)
    (h : (do return branch opcode (← absolute offset (← int16).toInt) :
      ByteReader Instruction).Takes used insn) :
    insn.IsRead offset (opcode :: used) := by
  obtain ⟨_, _, d, rfl, hd, h⟩ := takes_bind.mp h
  obtain ⟨target, htarget, rfl⟩ := takes_map.mp h
  obtain ⟨rfl, heq⟩ := takes_absolute.mp htarget
  have hlow := d.le_toInt
  have hhigh := d.toInt_lt
  have hlong := ((Opcode.families_disjoint opcode).2.1 hop).2.2
  rw [takes_int16.mp hd, List.append_nil]
  refine ⟨.inl hop, .inr ⟨by omega, by omega⟩, by rw [size, hlong]; rfl, ?_⟩
  intro offsets source part hsource hpart
  cases source with
  | branch opcode' label =>
    obtain ⟨rfl, rfl⟩ := branch.inj hsource
    rw [encode, hlong, if_neg Bool.false_ne_true] at hpart
    obtain ⟨jump, hjump, hpart⟩ := Success.bind_eq_ok.mp hpart
    rw [shortJump_of_distance heq hjump] at hpart
    obtain rfl := Except.ok.inj hpart
    exact blanks_refl fun _ => id
  | _ => cases hsource

theorem readLongBranch_spec {opcode : Opcode} (hop : opcode.isLongBranch = true)
    (h : (do return branch opcode (← readTarget offset) :
      ByteReader Instruction).Takes used insn) :
    insn.IsRead offset (opcode :: used) := by
  obtain ⟨target, htarget, rfl⟩ := takes_map.mp h
  refine ⟨.inr hop, .inl hop, ?_, ?_⟩
  · rw [size, if_pos hop, List.length_cons, length_readTarget htarget]
  · intro offsets source part hsource hpart
    cases source with
    | branch opcode' label =>
      obtain ⟨rfl, rfl⟩ := branch.inj hsource
      rw [encode, if_pos hop, longJump_of_readTarget htarget] at hpart
      obtain rfl := Except.ok.inj hpart
      exact blanks_refl fun _ => id
    | _ => cases hsource

theorem readOperands_spec {opcode : Opcode} (h : (readOperands offset opcode).Takes used insn) :
    insn.IsRead offset (opcode :: used) := by
  unfold readOperands at h
  split at h
  · next hop =>
    obtain ⟨rfl, rfl⟩ := takes_pure.mp h
    exact isRead_plain rfl hop rfl (fun _ => rfl) (blanks_refl fun _ => id)
  split at h
  · next hop =>
    obtain ⟨index, hindex, rfl⟩ := takes_map.mp h
    have hnormal : writtenForm opcode index.toUInt16 .normal = .normal := by
      have hlt := index.toNat_lt
      rw [writtenForm_normal, UInt8.toNat_toUInt16]
      omega
    rw [takes_byte.mp hindex]
    exact isRead_plain rfl ⟨hop, hnormal⟩ (by rw [size, hnormal]; rfl)
      (fun _ => by rw [encode, hnormal, UInt8.toUInt8_toUInt16]) (blanks_refl fun _ => id)
  split at h
  · next hop => exact readShortBranch_spec hop h
  split at h
  · next hop => exact readLongBranch_spec hop h
  split at h
  · next hop =>
    obtain ⟨index, hindex, rfl⟩ := takes_map.mp h
    rw [takes_word16.mp hindex]
    exact isRead_plain rfl hop rfl (fun _ => rfl) (blanks_refl fun _ => id)
  split at h
  · next base index hslot =>
    obtain ⟨rfl, rfl⟩ := takes_pure.mp h
    obtain ⟨hop, hret, hle⟩ := Opcode.ofShortSlot?_spec hslot
    have hshort := writtenForm_short.mpr ⟨hle, hret⟩
    exact isRead_plain rfl ⟨hop, hshort⟩ (by rw [size, hshort]; rfl)
      (fun _ => by rw [encode, hshort, Opcode.shortSlot_ofShortSlot? hslot])
      (blanks_refl fun _ => id)
  · exact readSpecial_spec h

/-- An instruction that was read is well formed, fits its bytes and can be written. -/
theorem read_spec (h : (read offset).Takes used insn) : insn.IsRead offset used := by
  obtain ⟨_, _, opcode, rfl, hopcode, h⟩ := takes_bind.mp h
  rw [takes_byte.mp hopcode]
  exact readOperands_spec h

end ClassText.Instruction
