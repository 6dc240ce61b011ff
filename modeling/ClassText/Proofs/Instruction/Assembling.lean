import ClassText.Proofs.Instruction.Layout

/-!
# What assembling gives

Instructions may ask for a form in which they are not written: a short load of a
variable that is far away, or an `ldc` whose index takes two bytes. Writing picks
the form that fits, and so do sizes; `Instruction.normal` is the instruction in
that form. It has the same size and the same bytes, and it is well formed as soon
as its opcode belongs to its operands (`Instruction.IsEncodable`).

So there are three outcomes (`Assembled.ofCode_outcome`). Code that is laid out
too far is refused; else the first short jump that does not reach its target is
reported; else there are bytes, and reading them gives the normal forms.
-/

namespace ClassText

namespace Instruction

/-! ## Normal forms -/

/-- The opcode belongs to the operands, and a table has entries, all of them with an index. -/
def IsEncodable : Instruction → Prop
  | simple opcode => opcode.isSimple = true
  | slot opcode _ _ => opcode.isSlot = true
  | branch opcode _ => opcode.isShortBranch = true ∨ opcode.isLongBranch = true
  | tableSwitch _ low targets => targets ≠ [] ∧ low.toInt + targets.length ≤ 2 ^ 31 - 1
  | constantRef opcode _ => opcode.isConstantRef = true
  | _ => True

/-- The instruction in the form in which it is written. -/
def normal : Instruction → Instruction
  | loadConstant index wide => loadConstant index (isWideLoad index wide)
  | slot opcode index form => slot opcode index (writtenForm opcode index form)
  | increment index step wide => increment index step (isWideIncrement index step wide)
  | other => other

variable {insn : Instruction} {offset : Nat} {offsets : Array Nat}

theorem isWideLoad_normal (index : PoolIndex) (wide : Bool) :
    isWideLoad index (isWideLoad index wide) = isWideLoad index wide := by
  simp only [isWideLoad, Bool.or_assoc, Bool.or_self]

theorem isWideIncrement_normal (index : UInt16) (step : Int16) (wide : Bool) :
    isWideIncrement index step (isWideIncrement index step wide) =
      isWideIncrement index step wide := by
  have hself : ∀ a b c : Bool, (a || b || c || b || c) = (a || b || c) := by decide
  exact hself wide _ _

theorem writtenForm_normalForm (opcode : Opcode) (index : UInt16) (form : SlotForm) :
    writtenForm opcode index (writtenForm opcode index form) = writtenForm opcode index form := by
  by_cases hwide : form = .wide ∨ 255 < index.toNat
  · have hform : writtenForm opcode index form = .wide := if_pos hwide
    rw [hform, writtenForm_wide]
  · obtain ⟨hne, hindex⟩ := not_or.mp hwide
    by_cases hshort : form = .short ∧ index.toNat ≤ 3 ∧ opcode ≠ .ret
    · have hform : writtenForm opcode index form = .short := by
        rw [writtenForm, if_neg hwide, if_pos hshort]
      rw [hform, writtenForm_short.mpr hshort.2]
    · have hform : writtenForm opcode index form = .normal := by
        rw [writtenForm, if_neg hwide, if_neg hshort]
      rw [hform, writtenForm_normal.mpr (Nat.le_of_not_lt hindex)]

@[simp] theorem targets_normal : insn.normal.targets = insn.targets := by
  cases insn <;> rfl

@[simp] theorem size_normal : insn.normal.size offset = insn.size offset := by
  cases insn with
  | loadConstant index wide => simp only [normal, size, isWideLoad_normal]
  | slot opcode index form => simp only [normal, size, writtenForm_normalForm]
  | increment index step wide => simp only [normal, size, isWideIncrement_normal]
  | _ => rfl

@[simp] theorem encode_normal : insn.normal.encode offsets offset = insn.encode offsets offset := by
  cases insn with
  | loadConstant index wide => simp only [normal, encode, isWideLoad_normal]
  | slot opcode index form => simp only [normal, encode, writtenForm_normalForm]
  | increment index step wide => simp only [normal, encode, isWideIncrement_normal]
  | _ => rfl

/-- Instructions that fit into code can be read in their normal form. -/
theorem isWellFormed_normal (h : insn.IsEncodable) (hsize : insn.size offset ≤ 65535) :
    insn.normal.IsWellFormed := by
  cases insn with
  | loadConstant index wide => exact isWideLoad_normal index wide
  | slot opcode index form => exact ⟨h, writtenForm_normalForm opcode index form⟩
  | increment index step wide => exact isWideIncrement_normal index step wide
  | tableSwitch default low targets =>
    obtain ⟨hne, hbound⟩ := h
    exact ⟨hne, by omega⟩
  | lookupSwitch default pairs =>
    simp only [size] at hsize
    show pairs.length < 2 ^ 31
    omega
  | simple opcode => exact h
  | branch opcode target => exact h
  | constantRef opcode index => exact h
  | _ => trivial

/-- Only a short jump cannot be written, and only for its distance. -/
theorem encode_eq_error_iff {fault : AssemblyFault} :
    insn.encode offsets offset = .error fault ↔
      ∃ opcode target, insn = .branch opcode target ∧ opcode.isLongBranch = false ∧
        ¬(-32768 ≤ displacement offsets offset target ∧
          displacement offsets offset target ≤ 32767) ∧
        fault = .jumpOutOfRange offset (offsets.getD target 0) := by
  cases insn with
  | branch opcode target =>
    rw [encode]
    cases hlong : opcode.isLongBranch with
    | true =>
      refine ⟨fun h => (by cases h), ?_⟩
      rintro ⟨_, _, heq, hshort, -⟩
      cases heq
      rw [hlong] at hshort
      cases hshort
    | false =>
      rw [if_neg Bool.false_ne_true, shortJump]
      by_cases hfits : -32768 ≤ displacement offsets offset target ∧
          displacement offsets offset target ≤ 32767
      · rw [if_pos hfits]
        refine ⟨fun h => (by cases h), ?_⟩
        rintro ⟨_, _, heq, -, hmisses, -⟩
        cases heq
        exact absurd hfits hmisses
      · rw [if_neg hfits]
        constructor
        · intro h
          exact ⟨opcode, target, rfl, hlong, hfits, (Except.error.inj h).symm⟩
        · rintro ⟨_, _, heq, -, -, rfl⟩
          cases heq
          rfl
  | _ =>
    constructor
    · intro h
      cases h
    · rintro ⟨_, _, heq, -⟩
      cases heq

end Instruction

namespace Assembled

open Instruction

variable {code : Array Instruction} {l : Label}

/-! ## Code in normal form -/

theorem offsetsOf_map_normal (code : Array Instruction) :
    offsetsOf (code.map normal) = offsetsOf code := by
  rw [← Array.toList_inj, toList_offsetsOf, toList_offsetsOf, Array.toList_map,
    labelsFrom_map fun _ _ => size_normal]

/-- Forms make no difference to what is assembled. -/
theorem ofCode_map_normal {assembled : Assembled} (h : ofCode code = .ok assembled) :
    ofCode (code.map normal) = .ok assembled := by
  obtain ⟨offsets, bytes⟩ := assembled
  obtain ⟨hend, rfl, parts, hparts, rfl⟩ := ofCode_eq_ok_iff.mp h
  refine ofCode_eq_ok_iff.mpr ⟨?_, (offsetsOf_map_normal code).symm, parts, ?_, rfl⟩
  · rwa [Array.toList_map, endOf_map fun _ _ => size_normal]
  · rw [Array.toList_map, placed_map fun _ _ => size_normal, List.forall₂_map_left_iff]
    refine hparts.imp fun p part hpart => ?_
    rwa [encode_normal]

theorem getD_size_offsetsOf (code : Array Instruction) :
    (offsetsOf code).getD code.size 0 = endOf 0 code.toList := by
  rw [← back?_offsetsOf, Array.back?, size_offsetsOf, Nat.add_sub_cancel,
    Array.getD_eq_getD_getElem?]

/-- An instruction is placed at the offset of its label. -/
theorem getElem?_placed {p : Instruction × Nat} :
    (placed 0 code.toList)[l]? = some p ↔
      code[l]? = some p.1 ∧ p.2 = (offsetsOf code).getD l 0 := by
  rw [← zip_labelsFrom, ← toList_offsetsOf, List.getElem?_zip_eq_some, Array.getElem?_toList]
  refine and_congr_right fun hinsn => ?_
  have hlt := (Array.getElem?_eq_some_iff.mp hinsn).1
  rw [getD_offsetsOf (Nat.le_of_lt hlt), Option.some.injEq]
  exact eq_comm

/-! ## Failures -/

/-- The instruction at a label is a short jump that does not reach its target. -/
def Misses (code : Array Instruction) (l target : Label) : Prop :=
  ∃ opcode, code[l]? = some (.branch opcode target) ∧ opcode.isLongBranch = false ∧
    ¬(-32768 ≤ displacement (offsetsOf code) ((offsetsOf code).getD l 0) target ∧
      displacement (offsetsOf code) ((offsetsOf code).getD l 0) target ≤ 32767)

theorem ofCode_eq_layout_bind (code : Array Instruction) :
    ofCode code = if 65535 < endOf 0 code.toList then .error (.codeTooLong (endOf 0 code.toList))
      else do
        let parts ← (placed 0 code.toList).mapM fun p => p.1.encode (offsetsOf code) p.2
        return ⟨offsetsOf code, parts.flatten⟩ := by
  rw [ofCode, layout]
  dsimp only
  rw [back?_offsetsOf]
  split
  · rfl
  · rw [← zip_labelsFrom, ← toList_offsetsOf]
    rfl

theorem encode_mapM_eq_error_iff {fault : AssemblyFault} :
    ((placed 0 code.toList).mapM fun p => p.1.encode (offsetsOf code) p.2) = .error fault ↔
      ∃ l target, Misses code l target ∧ (∀ j < l, ∀ t, ¬Misses code j t) ∧
        fault = .jumpOutOfRange ((offsetsOf code).getD l 0) ((offsetsOf code).getD target 0) := by
  rw [Success.mapM_eq_error]
  constructor
  · rintro ⟨l, p, hp, hfail, hbefore⟩
    obtain ⟨hinsn, hoffset⟩ := getElem?_placed.mp hp
    obtain ⟨opcode, target, heq, hshort, hmisses, rfl⟩ := encode_eq_error_iff.mp hfail
    rw [hoffset] at hmisses ⊢
    refine ⟨l, target, ⟨opcode, heq ▸ hinsn, hshort, hmisses⟩, ?_, rfl⟩
    rintro j hj t ⟨other, hother, hshort', hmisses'⟩
    obtain ⟨part, hpart⟩ := hbefore j hj (.branch other t, (offsetsOf code).getD j 0)
      (getElem?_placed.mpr ⟨hother, rfl⟩)
    have herror := encode_eq_error_iff.mpr ⟨other, t, rfl, hshort', hmisses', rfl⟩
    cases hpart.symm.trans herror
  · rintro ⟨l, target, ⟨opcode, hinsn, hshort, hmisses⟩, hfirst, rfl⟩
    have hfail := encode_eq_error_iff.mpr ⟨opcode, target, rfl, hshort, hmisses, rfl⟩
    refine ⟨l, (.branch opcode target, (offsetsOf code).getD l 0),
      getElem?_placed.mpr ⟨hinsn, rfl⟩, hfail, ?_⟩
    intro j hj p hp
    obtain ⟨hinsn', hoffset'⟩ := getElem?_placed.mp hp
    cases hrun : p.1.encode (offsetsOf code) p.2 with
    | ok part => exact ⟨part, rfl⟩
    | error fault =>
      obtain ⟨other, t, heq, hshort', hmisses', -⟩ := encode_eq_error_iff.mp hrun
      rw [hoffset'] at hmisses'
      exact absurd ⟨other, heq ▸ hinsn', hshort', hmisses'⟩ (hfirst j hj t)

theorem ofCode_eq_codeTooLong_iff {length : Nat} :
    ofCode code = .error (.codeTooLong length) ↔
      65535 < length ∧ length = (offsetsOf code).getD code.size 0 := by
  rw [getD_size_offsetsOf, ofCode_eq_layout_bind]
  by_cases hlong : 65535 < endOf 0 code.toList
  · rw [if_pos hlong, Except.error.injEq, AssemblyFault.codeTooLong.injEq]
    exact ⟨fun h => ⟨h ▸ hlong, h.symm⟩, fun h => h.2.symm⟩
  · rw [if_neg hlong]
    refine ⟨fun h => ?_, fun ⟨hlength, heq⟩ => absurd (heq ▸ hlength) hlong⟩
    cases hparts : (placed 0 code.toList).mapM fun p => p.1.encode (offsetsOf code) p.2 with
    | error fault =>
      rw [hparts] at h
      obtain ⟨_, _, -, -, rfl⟩ := encode_mapM_eq_error_iff.mp hparts
      cases h
    | ok parts =>
      rw [hparts] at h
      cases h

theorem ofCode_eq_jumpOutOfRange_iff {origin goal : Nat} :
    ofCode code = .error (.jumpOutOfRange origin goal) ↔
      (offsetsOf code).getD code.size 0 ≤ 65535 ∧
        ∃ l target, Misses code l target ∧ (∀ j < l, ∀ t, ¬Misses code j t) ∧
          origin = (offsetsOf code).getD l 0 ∧ goal = (offsetsOf code).getD target 0 := by
  rw [getD_size_offsetsOf, ofCode_eq_layout_bind]
  by_cases hlong : 65535 < endOf 0 code.toList
  · rw [if_pos hlong]
    exact ⟨fun h => (nomatch h), fun h => absurd hlong (Nat.not_lt.mpr h.1)⟩
  · rw [if_neg hlong]
    have hfail : ((placed 0 code.toList).mapM fun p => p.1.encode (offsetsOf code) p.2) =
        .error (.jumpOutOfRange origin goal) ↔
          ∃ l target, Misses code l target ∧ (∀ j < l, ∀ t, ¬Misses code j t) ∧
            origin = (offsetsOf code).getD l 0 ∧ goal = (offsetsOf code).getD target 0 := by
      simp only [encode_mapM_eq_error_iff, AssemblyFault.jumpOutOfRange.injEq]
    rw [← hfail]
    cases (placed 0 code.toList).mapM fun p => p.1.encode (offsetsOf code) p.2 with
    | error fault =>
      constructor
      · intro h
        exact ⟨Nat.le_of_not_lt hlong, congrArg Except.error (Except.error.inj h)⟩
      · rintro ⟨-, h⟩
        exact congrArg Except.error (Except.error.inj h)
    | ok parts => exact ⟨fun h => (nomatch h), fun h => (nomatch h.2)⟩

/-- Code that is not too long is written down if every short jump reaches its target. -/
theorem exists_ofCode (hend : (offsetsOf code).getD code.size 0 ≤ 65535)
    (hnone : ∀ l target, ¬Misses code l target) :
    ∃ bytes, ofCode code = .ok ⟨offsetsOf code, bytes⟩ := by
  rw [getD_size_offsetsOf] at hend
  rw [ofCode_eq_layout_bind, if_neg (Nat.not_lt.mpr hend)]
  cases hparts : (placed 0 code.toList).mapM fun p => p.1.encode (offsetsOf code) p.2 with
  | error fault =>
    obtain ⟨l, target, hmisses, -⟩ := encode_mapM_eq_error_iff.mp hparts
    exact absurd hmisses (hnone l target)
  | ok parts => exact ⟨parts.flatten, rfl⟩

/-! ## The outcome -/

/-- Instructions that can be written, each jumping to an instruction. -/
def IsEncodable (code : Array Instruction) : Prop :=
  ∀ insn ∈ code.toList, insn.IsEncodable ∧ ∀ t ∈ insn.targets, t < code.size

theorem isReadable_map_normal (hcode : IsEncodable code)
    (hend : (offsetsOf code).getD code.size 0 ≤ 65535) : IsReadable (code.map normal) := by
  rw [getD_size_offsetsOf] at hend
  intro insn hinsn
  rw [Array.toList_map] at hinsn
  obtain ⟨before, hbefore, rfl⟩ := List.mem_map.mp hinsn
  obtain ⟨l, hl⟩ := List.getElem?_of_mem hbefore
  rw [Array.getElem?_toList] at hl
  have hplaced : (before, (offsetsOf code).getD l 0) ∈ placed 0 code.toList :=
    List.mem_of_getElem? (getElem?_placed.mpr ⟨hl, rfl⟩)
  obtain ⟨-, -, hwithin⟩ := mem_placed hplaced
  have hsize : before.size ((offsetsOf code).getD l 0) ≤ 65535 :=
    Nat.le_trans (Nat.le_trans (Nat.le_add_left _ _) hwithin) hend
  obtain ⟨hencodable, htargets⟩ := hcode before hbefore
  rw [targets_normal, Array.size_map]
  exact ⟨isWellFormed_normal hencodable hsize, htargets⟩

/-- Code whose instructions can be written fails where it is too long, or else at the first short
jump that does not reach its target; or else it is read again in its normal form, at the offsets
of its layout. -/
theorem ofCode_outcome (hcode : IsEncodable code) :
    (∀ length, ofCode code = .error (.codeTooLong length) ↔
      65535 < length ∧ length = (offsetsOf code).getD code.size 0) ∧
    (∀ origin goal, ofCode code = .error (.jumpOutOfRange origin goal) ↔
      (offsetsOf code).getD code.size 0 ≤ 65535 ∧
        ∃ l target, Misses code l target ∧ (∀ j < l, ∀ t, ¬Misses code j t) ∧
          origin = (offsetsOf code).getD l 0 ∧ goal = (offsetsOf code).getD target 0) ∧
    ((offsetsOf code).getD code.size 0 ≤ 65535 → (∀ l target, ¬Misses code l target) →
      layout code = .ok (offsetsOf code) ∧
        ∃ bytes, ofCode code = .ok ⟨offsetsOf code, bytes⟩ ∧
          Decoded.ofBytes bytes = .ok ⟨code.map normal, offsetsOf code⟩) := by
  refine ⟨fun _ => ofCode_eq_codeTooLong_iff, fun _ _ => ofCode_eq_jumpOutOfRange_iff, ?_⟩
  intro hend hnone
  have hlayout : layout code = .ok (offsetsOf code) :=
    layout_eq_ok_iff.mpr ⟨getD_size_offsetsOf code ▸ hend, rfl⟩
  obtain ⟨bytes, hbytes⟩ := exists_ofCode hend hnone
  have hreadable := isReadable_map_normal hcode hend
  exact ⟨hlayout, bytes, hbytes, ofBytes_of_ofCode hreadable (ofCode_map_normal hbytes)⟩

/-- A loop around a switch, with an index, a variable and a step that take wide forms. -/
def promoting : Array Instruction :=
  #[.loadConstant 300 false, .slot Opcode.iload 300 .short, .slot Opcode.istore 5 .short,
    .increment 5 (-300) false, .slot Opcode.iload 2 .short, .tableSwitch 7 (-1) [0, 6],
    .branch Opcode.goto 0, .simple Opcode.returnVoid]

theorem ofCode_outcome_promoting :
    IsEncodable promoting ∧ (∀ l target, ¬Misses promoting l target) ∧
      ∃ bytes, ofCode promoting = .ok ⟨#[0, 3, 7, 9, 15, 16, 40, 43, 44], bytes⟩ ∧
        Decoded.ofBytes bytes = .ok
          ⟨#[.loadConstant 300 true, .slot Opcode.iload 300 .wide, .slot Opcode.istore 5 .normal,
            .increment 5 (-300) true, .slot Opcode.iload 2 .short, .tableSwitch 7 (-1) [0, 6],
            .branch Opcode.goto 0, .simple Opcode.returnVoid],
            #[0, 3, 7, 9, 15, 16, 40, 43, 44]⟩ := by
  have hcode : IsEncodable promoting := by
    intro insn hinsn
    simp only [promoting, List.mem_cons, List.not_mem_nil, or_false] at hinsn
    rcases hinsn with rfl | rfl | rfl | rfl | rfl | rfl | rfl | rfl <;>
      exact ⟨by simp only [Instruction.IsEncodable] <;> decide, by decide⟩
  have hoffsets : offsetsOf promoting = #[0, 3, 7, 9, 15, 16, 40, 43, 44] := by decide +kernel
  have hnone : ∀ l target, ¬Misses promoting l target := by
    rintro l target ⟨opcode, hinsn, -, hmisses⟩
    obtain ⟨hlt, hbranch⟩ := Array.getElem?_eq_some_iff.mp hinsn
    rw [hoffsets] at hmisses
    match l, hlt with
    | 6, _ =>
      obtain ⟨-, rfl⟩ := Instruction.branch.inj hbranch
      exact hmisses (by decide)
    | 0, _ | 1, _ | 2, _ | 3, _ | 4, _ | 5, _ | 7, _ => cases hbranch
  obtain ⟨-, bytes, hbytes, hread⟩ :=
    (ofCode_outcome hcode).2.2 (by rw [hoffsets]; decide) hnone
  rw [hoffsets] at hbytes hread
  refine ⟨hcode, hnone, bytes, hbytes, hread.trans ?_⟩
  decide +kernel

end Assembled

end ClassText
