import ClassText.Proofs.Instruction.Codec

/-!
# Code is read as it is laid out

Instructions one after the other, each at the offset where the one before it
ends, are what both a layout and the bytes of a method come down to. The
offsets of all labels grow from label to label, so an offset belongs to no more
than one label, and every jump that was written as a distance leads back to the
label it was made from.

Code whose instructions can be read is read as it was assembled
(`ofBytes_of_ofCode`), and code that was read can be assembled to as many bytes
(`ofCode_of_ofBytes`).
-/

namespace ClassText

open ByteReader

namespace Assembled

variable {offset : Nat} {insns : List Instruction}

/-! ## Offsets -/

/-- The instructions with their offsets, the first one at the given offset. -/
def placed : Nat → List Instruction → List (Instruction × Nat)
  | _, [] => []
  | offset, insn :: rest => (insn, offset) :: placed (offset + insn.size offset) rest

/-- Where the last instruction ends. -/
def endOf : Nat → List Instruction → Nat
  | offset, [] => offset
  | offset, insn :: rest => endOf (offset + insn.size offset) rest

/-- The offsets of all labels. -/
def labelsFrom (offset : Nat) (insns : List Instruction) : List Nat :=
  (placed offset insns).map (·.2) ++ [endOf offset insns]

theorem labelsFrom_cons {insn : Instruction} :
    labelsFrom offset (insn :: insns) = offset :: labelsFrom (offset + insn.size offset) insns :=
  rfl

theorem length_placed : (placed offset insns).length = insns.length := by
  induction insns generalizing offset with
  | nil => rfl
  | cons insn rest ih => rw [placed, List.length_cons, List.length_cons, ih]

theorem map_fst_placed : (placed offset insns).map (·.1) = insns := by
  induction insns generalizing offset with
  | nil => rfl
  | cons insn rest ih => rw [placed, List.map_cons, ih]

theorem length_labelsFrom : (labelsFrom offset insns).length = insns.length + 1 := by
  rw [labelsFrom, List.length_append, List.length_map, length_placed]
  rfl

theorem zip_labelsFrom : insns.zip (labelsFrom offset insns) = placed offset insns := by
  induction insns generalizing offset with
  | nil => rfl
  | cons insn rest ih => rw [labelsFrom_cons, List.zip_cons_cons, ih, placed]

section Map

variable {f : Instruction → Instruction}

/-- Instructions of the same sizes have the same offsets. -/
theorem placed_map (hsize : ∀ insn offset, (f insn).size offset = insn.size offset) :
    placed offset (insns.map f) = (placed offset insns).map fun p => (f p.1, p.2) := by
  induction insns generalizing offset with
  | nil => rfl
  | cons insn rest ih => rw [List.map_cons, placed, placed, List.map_cons, hsize, ih]

theorem endOf_map (hsize : ∀ insn offset, (f insn).size offset = insn.size offset) :
    endOf offset (insns.map f) = endOf offset insns := by
  induction insns generalizing offset with
  | nil => rfl
  | cons insn rest ih => rw [List.map_cons, endOf, endOf, hsize, ih]

theorem labelsFrom_map (hsize : ∀ insn offset, (f insn).size offset = insn.size offset) :
    labelsFrom offset (insns.map f) = labelsFrom offset insns := by
  rw [labelsFrom, labelsFrom, placed_map hsize, endOf_map hsize, List.map_map]
  rfl

end Map

theorem placed_map_mapLabels {f : Label → Label} :
    placed offset (insns.map (Instruction.mapLabels f)) =
      (placed offset insns).map fun p => (p.1.mapLabels f, p.2) :=
  placed_map fun _ _ => Instruction.size_mapLabels

theorem endOf_map_mapLabels {f : Label → Label} :
    endOf offset (insns.map (Instruction.mapLabels f)) = endOf offset insns :=
  endOf_map fun _ _ => Instruction.size_mapLabels

theorem labelsFrom_map_mapLabels {f : Label → Label} :
    labelsFrom offset (insns.map (Instruction.mapLabels f)) = labelsFrom offset insns :=
  labelsFrom_map fun _ _ => Instruction.size_mapLabels

theorem le_endOf (offset : Nat) (insns : List Instruction) : offset ≤ endOf offset insns := by
  induction insns generalizing offset with
  | nil => exact Nat.le_refl _
  | cons insn rest ih => exact Nat.le_trans (Nat.le_add_right _ _) (ih _)

theorem lt_endOf (h : insns ≠ []) : offset < endOf offset insns := by
  cases insns with
  | nil => exact (h rfl).elim
  | cons insn rest =>
    have hpos := insn.size_pos offset
    exact Nat.lt_of_lt_of_le (Nat.lt_add_of_pos_right hpos) (le_endOf _ rest)

/-- An instruction begins no earlier than the first one, and does not reach beyond the end. -/
theorem mem_placed {p : Instruction × Nat} (h : p ∈ placed offset insns) :
    p.1 ∈ insns ∧ offset ≤ p.2 ∧ p.2 + p.1.size p.2 ≤ endOf offset insns := by
  induction insns generalizing offset with
  | nil => cases h
  | cons insn rest ih =>
    rcases List.mem_cons.mp h with rfl | h
    · exact ⟨List.mem_cons_self, Nat.le_refl _, le_endOf (offset + insn.size offset) rest⟩
    · obtain ⟨hmem, hle, hend⟩ := ih h
      exact ⟨List.mem_cons_of_mem _ hmem, Nat.le_trans (Nat.le_add_right _ _) hle, hend⟩

theorem le_of_mem_labelsFrom {o : Nat} (h : o ∈ labelsFrom offset insns) :
    offset ≤ o ∧ o ≤ endOf offset insns := by
  rcases List.mem_append.mp h with h | h
  · obtain ⟨p, hp, rfl⟩ := List.mem_map.mp h
    obtain ⟨-, hle, hend⟩ := mem_placed hp
    exact ⟨hle, by omega⟩
  · obtain rfl := List.mem_singleton.mp h
    exact ⟨le_endOf _ _, Nat.le_refl _⟩

/-- Every instruction takes some bytes. -/
theorem pairwise_labelsFrom : (labelsFrom offset insns).Pairwise (· < ·) := by
  induction insns generalizing offset with
  | nil => exact List.pairwise_singleton _ _
  | cons insn rest ih =>
    rw [labelsFrom_cons]
    refine List.pairwise_cons.mpr ⟨fun o ho => ?_, ih⟩
    have hle := (le_of_mem_labelsFrom ho).1
    have hpos := insn.size_pos offset
    omega

theorem foldl_offsets {starts : Array Nat} :
    insns.foldl (fun (starts, offset) insn => (starts.push offset, offset + insn.size offset))
        (starts, offset) =
      (starts ++ ((placed offset insns).map (·.2)).toArray, endOf offset insns) := by
  induction insns generalizing starts offset with
  | nil => simp [placed, endOf]
  | cons insn rest ih =>
    rw [List.foldl_cons, ih]
    simp [placed, endOf]

theorem toList_offsetsOf (code : Array Instruction) :
    (offsetsOf code).toList = labelsFrom 0 code.toList := by
  rw [offsetsOf, ← Array.foldl_toList, foldl_offsets]
  simp [labelsFrom]

theorem size_offsetsOf (code : Array Instruction) : (offsetsOf code).size = code.size + 1 := by
  rw [← Array.length_toList, toList_offsetsOf, length_labelsFrom, Array.length_toList]

theorem back?_offsetsOf (code : Array Instruction) :
    (offsetsOf code).back?.getD 0 = endOf 0 code.toList := by
  rw [← Array.getLast?_toList, toList_offsetsOf, labelsFrom, List.getLast?_concat,
    Option.getD_some]

/-- Code is laid out if it does not end too far. -/
theorem layout_eq_ok_iff {code : Array Instruction} {offsets : Array Nat} :
    layout code = .ok offsets ↔ endOf 0 code.toList ≤ 65535 ∧ offsets = offsetsOf code := by
  simp only [layout, back?_offsetsOf]
  rw [Success.check_eq_ok, Nat.not_lt, Except.ok.injEq, eq_comm (b := offsets)]

theorem ofCode_eq_ok_iff {code : Array Instruction} {offsets : Array Nat} {bytes : Bytes} :
    ofCode code = .ok ⟨offsets, bytes⟩ ↔
      endOf 0 code.toList ≤ 65535 ∧ offsets = offsetsOf code ∧ ∃ parts,
        List.Forall₂ (fun p part => p.1.encode offsets p.2 = .ok part) (placed 0 code.toList)
          parts ∧ bytes = parts.flatten := by
  rw [ofCode, Success.bind_eq_ok]
  constructor
  · rintro ⟨_, hlayout, h⟩
    obtain ⟨hend, rfl⟩ := layout_eq_ok_iff.mp hlayout
    obtain ⟨parts, hparts, h⟩ := Success.bind_eq_ok.mp h
    obtain ⟨rfl, rfl⟩ := Assembled.mk.inj (Except.ok.inj h)
    rw [toList_offsetsOf, zip_labelsFrom] at hparts
    exact ⟨hend, rfl, parts, Success.mapM_eq_ok.mp hparts, rfl⟩
  · rintro ⟨hend, rfl, parts, hparts, rfl⟩
    refine ⟨_, layout_eq_ok_iff.mpr ⟨hend, rfl⟩, Success.bind_eq_ok.mpr ⟨parts, ?_, rfl⟩⟩
    rw [toList_offsetsOf, zip_labelsFrom]
    exact Success.mapM_eq_ok.mpr hparts

theorem layout_of_ofCode {code : Array Instruction} {offsets : Array Nat} {bytes : Bytes}
    (h : ofCode code = .ok ⟨offsets, bytes⟩) : layout code = .ok offsets :=
  let ⟨hend, hoffsets, _⟩ := ofCode_eq_ok_iff.mp h
  layout_eq_ok_iff.mpr ⟨hend, hoffsets⟩

/-! ## Labels and offsets -/

section Labels

variable {code : Array Instruction} {l l' o : Nat}

theorem getD_offsetsOf (h : l ≤ code.size) :
    (offsetsOf code).toList[l]? = some ((offsetsOf code).getD l 0) := by
  have hlt : l < (offsetsOf code).size := by rw [size_offsetsOf]; omega
  rw [Array.getElem?_toList, Array.getElem?_eq_getElem hlt, Array.getD, dif_pos hlt]
  rfl

theorem getD_offsetsOf_le (code : Array Instruction) (l : Nat) :
    (offsetsOf code).getD l 0 ≤ endOf 0 code.toList := by
  by_cases h : l ≤ code.size
  · have hmem := List.mem_of_getElem? (getD_offsetsOf h)
    rw [toList_offsetsOf] at hmem
    exact (le_of_mem_labelsFrom hmem).2
  · have hlt : ¬l < (offsetsOf code).size := by rw [size_offsetsOf]; omega
    rw [Array.getD, dif_neg hlt]
    exact Nat.zero_le _

theorem getD_offsetsOf_lt (h : l < l') (h' : l' ≤ code.size) :
    (offsetsOf code).getD l 0 < (offsetsOf code).getD l' 0 := by
  have hl := List.getElem?_eq_some_iff.mp (getD_offsetsOf (Nat.le_of_lt (Nat.lt_of_lt_of_le h h')))
  have hl' := List.getElem?_eq_some_iff.mp (getD_offsetsOf h')
  obtain ⟨hlen, hl⟩ := hl
  obtain ⟨hlen', hl'⟩ := hl'
  rw [← hl, ← hl']
  have hpair : (offsetsOf code).toList.Pairwise (· < ·) := by
    rw [toList_offsetsOf]
    exact pairwise_labelsFrom
  exact List.pairwise_iff_getElem.mp hpair l l' hlen hlen' h

theorem getD_offsetsOf_mono (h : l ≤ l') (h' : l' ≤ code.size) :
    (offsetsOf code).getD l 0 ≤ (offsetsOf code).getD l' 0 := by
  rcases Nat.eq_or_lt_of_le h with rfl | h
  · exact Nat.le_refl _
  · exact Nat.le_of_lt (getD_offsetsOf_lt h h')

/-- An offset of a label is found at that label and at no other. -/
theorem labelAt?_eq_some_iff :
    Decoded.labelAt? (offsetsOf code) o = some l ↔
      l ≤ code.size ∧ (offsetsOf code).getD l 0 = o := by
  have htoList : (offsetsOf code).idxOf? o = (offsetsOf code).toList.idxOf? o := by
    rw [← List.idxOf?_toArray, Array.toArray_toList]
  rw [Decoded.labelAt?, htoList, List.idxOf?_eq_some_iff]
  constructor
  · rintro ⟨hlt, rfl, -⟩
    have hle : l ≤ code.size := by
      rw [Array.length_toList, size_offsetsOf] at hlt
      omega
    have hget := getD_offsetsOf hle
    rw [List.getElem?_eq_getElem hlt] at hget
    exact ⟨hle, (Option.some.inj hget).symm⟩
  · rintro ⟨hle, rfl⟩
    obtain ⟨hlt, heq⟩ := List.getElem?_eq_some_iff.mp (getD_offsetsOf hle)
    refine ⟨hlt, heq, fun k hk hbad => ?_⟩
    have hless := getD_offsetsOf_lt hk hle
    have hget := getD_offsetsOf (Nat.le_of_lt (Nat.lt_of_lt_of_le hk hle))
    rw [List.getElem?_eq_getElem (Nat.lt_trans hk hlt), hbad] at hget
    exact Nat.lt_irrefl _ (Option.some.inj hget ▸ hless)

/-- An offset of an instruction is found at its label and at no other. -/
theorem startAt?_eq_some_iff :
    Decoded.startAt? (offsetsOf code) o = some l ↔
      l < code.size ∧ (offsetsOf code).getD l 0 = o := by
  rw [Decoded.startAt?, Option.filter_eq_some_iff, labelAt?_eq_some_iff, decide_eq_true_eq,
    size_offsetsOf, Nat.add_lt_add_iff_right]
  exact ⟨fun ⟨⟨_, ho⟩, hlt⟩ => ⟨hlt, ho⟩, fun ⟨hlt, ho⟩ => ⟨⟨Nat.le_of_lt hlt, ho⟩, hlt⟩⟩

end Labels

/-! ## Instructions that are read one after the other -/

/-- The parts are taken for the instructions, each at its offset. -/
def AreRead (offset : Nat) (parts : List Bytes) (insns : List Instruction) : Prop :=
  List.Forall₂ (fun part p => (Instruction.read p.2).Takes part p.1) parts (placed offset insns)

theorem AreRead.length_eq : ∀ {offset : Nat} {parts : List Bytes} {insns : List Instruction},
    AreRead offset parts insns → offset + parts.flatten.length = endOf offset insns
  | _, _, [], .nil => rfl
  | offset, _, insn :: rest, .cons hpart hrest => by
    have hsize : insn.size offset = _ := (Instruction.read_spec hpart).size_eq
    rw [endOf, ← AreRead.length_eq hrest, List.flatten_cons, List.length_append, hsize,
      Nat.add_assoc]

theorem areRead_nil_iff {parts : List Bytes} (h : AreRead offset parts insns) :
    parts.flatten = [] ↔ insns = [] := by
  cases insns with
  | nil =>
    cases h
    exact ⟨fun _ => rfl, fun _ => rfl⟩
  | cons insn rest =>
    have hlen := h.length_eq
    have hpos := insn.size_pos offset
    have hend := le_endOf (offset + insn.size offset) rest
    rw [endOf] at hlen
    refine ⟨fun hnil => ?_, fun hnil => (nomatch hnil)⟩
    rw [hnil, List.length_nil] at hlen
    omega

end Assembled

namespace Decoded

open Assembled

/-! ## Scanning -/

/-- Where the reader stands is where the sizes of the instructions before it lead. -/
theorem scan_eq_ok_iff {total : Nat} : ∀ {fuel : Nat} {bytes : Bytes} {offset : Nat}
    {read result : Decoded}, offset + bytes.length = total → bytes.length ≤ fuel →
    (scan total fuel bytes read = .ok result ↔
      ∃ parts insns, AreRead offset parts insns ∧ bytes = parts.flatten ∧
        result = ⟨read.instructions ++ insns.toArray,
          read.offsets ++ (labelsFrom offset insns).toArray⟩)
  | fuel, [], offset, read, result, hoffset, _ => by
    obtain rfl : offset = total := hoffset
    rw [scan, Except.ok.injEq]
    constructor
    · rintro rfl
      exact ⟨[], [], .nil, rfl, by simp [labelsFrom, placed, endOf]⟩
    · rintro ⟨parts, insns, hread, hnil, rfl⟩
      obtain rfl := (areRead_nil_iff hread).mp hnil.symm
      simp [labelsFrom, placed, endOf]
  | 0, _ :: _, _, _, _, _, hfuel => (nomatch hfuel)
  | fuel + 1, b :: bytes, offset, read, result, hoffset, hfuel => by
    have hstart : total - (b :: bytes).length = offset := by omega
    simp only [scan, hstart]
    constructor
    · intro h
      split at h
      · cases h
      · next insn rest hinsn =>
        obtain ⟨part, heq, hpart⟩ := run_eq_ok_iff.mp hinsn
        have hsize := (Instruction.read_spec hpart).size_eq
        have hpos := insn.size_pos offset
        have hlen := congrArg List.length heq
        rw [List.length_append] at hlen
        have hnext : offset + insn.size offset + rest.length = total := by omega
        obtain ⟨parts, insns, hread, rfl, rfl⟩ := (scan_eq_ok_iff hnext (by omega)).mp h
        exact ⟨part :: parts, insn :: insns, .cons hpart hread, heq, by
          simp [labelsFrom_cons]⟩
    · rintro ⟨parts, insns, hread, heq, rfl⟩
      cases insns with
      | nil => cases hread; cases heq
      | cons insn rest =>
        cases hread with
        | @cons part _ parts _ hpart hread =>
          have hsize : insn.size offset = _ := (Instruction.read_spec hpart).size_eq
          have hpos := insn.size_pos offset
          have hlen := congrArg List.length heq
          rw [List.flatten_cons, List.length_append] at hlen
          rw [heq, List.flatten_cons, hpart]
          exact (scan_eq_ok_iff (by omega) (by omega)).mpr
            ⟨parts, rest, hread, rfl, by simp [labelsFrom_cons]⟩

/-! ## Resolving -/

/-- The label in the place of a target, in an instruction at an offset. -/
def labelOf (offsets : Array Nat) (offset target : Nat) : Except ClassError Label :=
  match startAt? offsets target with
  | some label => .ok label
  | none => .error (.malformed (.jumpTarget offset target))

theorem labelOf_eq_ok_iff {code : Array Instruction} {offset target l : Nat} :
    labelOf (offsetsOf code) offset target = .ok l ↔
      l < code.size ∧ (offsetsOf code).getD l 0 = target := by
  rw [← startAt?_eq_some_iff, labelOf]
  split <;> simp_all

theorem resolve_eq_ok_iff {insns : List Instruction} {result : Decoded} :
    resolve ⟨insns.toArray, (labelsFrom 0 insns).toArray⟩ = .ok result ↔
      ∃ after : List Instruction,
        List.Forall₂ (fun p insn =>
          p.1.mapTargets (labelOf (offsetsOf insns.toArray) p.2) = .ok insn) (placed 0 insns)
          after ∧ result = ⟨after.toArray, offsetsOf insns.toArray⟩ := by
  have hoffsets : (labelsFrom 0 insns).toArray = offsetsOf insns.toArray := by
    rw [← Array.toList_inj, toList_offsetsOf]
  rw [hoffsets, resolve, Success.bind_eq_ok]
  constructor
  · rintro ⟨after, hafter, h⟩
    rw [toList_offsetsOf, zip_labelsFrom] at hafter
    exact ⟨after, Success.mapM_eq_ok.mp hafter, (Except.ok.inj h).symm⟩
  · rintro ⟨after, hafter, rfl⟩
    refine ⟨after, ?_, rfl⟩
    rw [toList_offsetsOf, zip_labelsFrom]
    exact Success.mapM_eq_ok.mpr hafter

/-- What the decoder makes of some bytes, in one piece. -/
theorem ofBytes_eq_ok_iff {bytes : Bytes} {result : Decoded} :
    ofBytes bytes = .ok result ↔
      ∃ parts insns, AreRead 0 parts insns ∧ bytes = parts.flatten ∧
        ∃ after : List Instruction,
          List.Forall₂ (fun p insn =>
            p.1.mapTargets (labelOf (offsetsOf insns.toArray) p.2) = .ok insn) (placed 0 insns)
            after ∧ result = ⟨after.toArray, offsetsOf insns.toArray⟩ := by
  rw [ofBytes, Success.bind_eq_ok]
  constructor
  · rintro ⟨scanned, hscan, h⟩
    obtain ⟨parts, insns, hread, rfl, rfl⟩ := (scan_eq_ok_iff (Nat.zero_add _) (Nat.le_refl _)).mp hscan
    rw [Array.empty_append, Array.empty_append] at h
    exact ⟨parts, insns, hread, rfl, resolve_eq_ok_iff.mp h⟩
  · rintro ⟨parts, insns, hread, rfl, h⟩
    refine ⟨_, (scan_eq_ok_iff (Nat.zero_add _) (Nat.le_refl _)).mpr ⟨parts, insns, hread, rfl, rfl⟩, ?_⟩
    rw [Array.empty_append, Array.empty_append]
    exact resolve_eq_ok_iff.mpr h

end Decoded

/-! ## Code that can be read -/

namespace Assembled

open Decoded

/-- Every instruction is well formed and jumps to an instruction. -/
def IsReadable (code : Array Instruction) : Prop :=
  ∀ insn ∈ code.toList, insn.IsWellFormed ∧ ∀ t ∈ insn.targets, t < code.size

variable {code : Array Instruction} {offsets : Array Nat} {bytes : Bytes}

/-- The instruction with offsets for labels, in code with these offsets. -/
abbrev unresolved (offsets : Array Nat) : Instruction → Instruction :=
  Instruction.mapLabels fun l => offsets.getD l 0

/-- Instructions that were written down are read with offsets for labels. -/
theorem areRead_of_encode {parts : List Bytes} (hread : IsReadable code)
    (hend : endOf 0 code.toList ≤ 65535)
    (hparts : List.Forall₂ (fun p part => p.1.encode (offsetsOf code) p.2 = .ok part)
      (placed 0 code.toList) parts) :
    AreRead 0 parts (code.toList.map (unresolved (offsetsOf code))) := by
  rw [AreRead, placed_map_mapLabels, List.forall₂_map_right_iff]
  have hall : ∀ p ∈ placed 0 code.toList, p.1.IsWellFormed ∧ p.2 ≤ 65535 := by
    intro p hp
    obtain ⟨hmem, -, hle⟩ := mem_placed hp
    exact ⟨(hread _ hmem).1, by omega⟩
  refine (((List.forall₂_and_left _ _).mpr ⟨hall, hparts⟩).imp ?_).flip
  rintro p part ⟨⟨hwell, hoffset⟩, hencode⟩
  exact Instruction.takes_of_encode hwell hoffset
    (fun l => Nat.le_trans (getD_offsetsOf_le code l) hend) hencode

/-- Code that was assembled takes as many bytes as it was laid out for. -/
theorem length_of_ofCode (hread : IsReadable code) (h : ofCode code = .ok ⟨offsets, bytes⟩) :
    bytes.length = endOf 0 code.toList := by
  obtain ⟨hend, rfl, parts, hparts, rfl⟩ := ofCode_eq_ok_iff.mp h
  rw [← endOf_map_mapLabels, ← (areRead_of_encode hread hend hparts).length_eq, Nat.zero_add]

/-- Code that was assembled is decoded to the same instructions and labels. -/
theorem ofBytes_of_ofCode (hread : IsReadable code) (h : ofCode code = .ok ⟨offsets, bytes⟩) :
    Decoded.ofBytes bytes = .ok ⟨code, offsets⟩ := by
  obtain ⟨hend, rfl, parts, hparts, rfl⟩ := ofCode_eq_ok_iff.mp h
  have hoffsets : offsetsOf (code.toList.map (unresolved (offsetsOf code))).toArray =
      offsetsOf code := by
    rw [← Array.toList_inj, toList_offsetsOf, toList_offsetsOf, labelsFrom_map_mapLabels]
  refine ofBytes_eq_ok_iff.mpr
    ⟨parts, _, areRead_of_encode hread hend hparts, rfl, code.toList, ?_, by rw [hoffsets]⟩
  rw [hoffsets, placed_map_mapLabels, List.forall₂_map_left_iff]
  have hsame : List.Forall₂ (fun p insn => p ∈ placed 0 code.toList ∧ p.1 = insn)
      (placed 0 code.toList) ((placed 0 code.toList).map (·.1)) := by
    rw [List.forall₂_map_right_iff, List.forall₂_same]
    exact fun p hp => ⟨hp, rfl⟩
  rw [map_fst_placed] at hsame
  refine hsame.imp ?_
  rintro p _ ⟨hp, rfl⟩
  refine Instruction.mapTargets_mapLabels fun l hl => labelOf_eq_ok_iff.mpr ⟨?_, rfl⟩
  exact (hread _ (mem_placed hp).1).2 l hl

theorem isRead_of_mem {insns : List Instruction} {parts : List Bytes} {offset : Nat}
    (hparts : AreRead offset parts insns) {p : Instruction × Nat} (hp : p ∈ placed offset insns) :
    ∃ used, p.1.IsRead p.2 used := by
  obtain ⟨part, hpart⟩ := Success.exists_of_mem_right hparts p hp
  exact ⟨_, Instruction.read_spec hpart⟩

/-- Resolving can be undone, and gives code that can be read. -/
theorem resolved_spec {insns after : List Instruction} {parts : List Bytes}
    (hparts : AreRead 0 parts insns)
    (hafter : List.Forall₂ (fun p insn =>
      p.1.mapTargets (labelOf (offsetsOf insns.toArray) p.2) = .ok insn) (placed 0 insns) after) :
    after.map (unresolved (offsetsOf insns.toArray)) = insns ∧ IsReadable after.toArray := by
  have hplaced : List.Forall₂ (fun insn insn' =>
      unresolved (offsetsOf insns.toArray) insn' = insn ∧ insn'.IsWellFormed ∧
        ∀ t ∈ insn'.targets, t < insns.length) ((placed 0 insns).map (·.1)) after := by
    refine List.forall₂_map_left_iff.mpr
      (((List.forall₂_and_left _ _).mpr ⟨fun p => isRead_of_mem hparts, hafter⟩).imp ?_)
    rintro p insn' ⟨⟨_, hp⟩, htargets⟩
    obtain ⟨hmap, hlabels⟩ := Instruction.eq_mapLabels_of_mapTargets
      (fun ht => (labelOf_eq_ok_iff.mp ht).2) htargets
    refine ⟨hmap.symm, Instruction.isWellFormed_mapLabels.mp (hmap ▸ hp.isWellFormed), ?_⟩
    intro t ht
    obtain ⟨o, ho⟩ := hlabels t ht
    exact (labelOf_eq_ok_iff.mp ho).1
  rw [map_fst_placed] at hplaced
  obtain ⟨hmap, hwell⟩ := Success.map_eq_of_forall₂ _ _ (fun _ _ h => h) hplaced
  refine ⟨hmap, fun insn hinsn => ?_⟩
  rw [List.size_toArray, hplaced.length_eq.symm]
  exact hwell insn hinsn

/-- Code that was decoded can be read and assembled again. -/
theorem ofCode_of_ofBytes (h : Decoded.ofBytes bytes = .ok ⟨code, offsets⟩)
    (hlen : bytes.length ≤ 65535) :
    IsReadable code ∧ offsets = offsetsOf code ∧
      ∃ bytes', ofCode code = .ok ⟨offsets, bytes'⟩ ∧ bytes'.length = bytes.length := by
  obtain ⟨parts, insns, hparts, rfl, after, hafter, heq⟩ := ofBytes_eq_ok_iff.mp h
  obtain ⟨rfl, rfl⟩ := Decoded.mk.inj heq
  obtain ⟨hmap, hreadable⟩ := resolved_spec hparts hafter
  have hlabels : offsetsOf insns.toArray = offsetsOf after.toArray := by
    rw [← Array.toList_inj, toList_offsetsOf, toList_offsetsOf]
    exact (congrArg (labelsFrom 0) hmap.symm).trans labelsFrom_map_mapLabels
  have hend : endOf 0 after = parts.flatten.length := by
    rw [← Nat.zero_add parts.flatten.length, hparts.length_eq]
    exact endOf_map_mapLabels.symm.trans (congrArg (endOf 0) hmap)
  obtain ⟨parts', hparts'⟩ : ∃ parts', List.Forall₂
      (fun p part => p.1.encode (offsetsOf insns.toArray) p.2 = .ok part) (placed 0 after)
      parts' := by
    refine Success.exists_forall₂ fun p hp => ?_
    have hp' : (unresolved (offsetsOf insns.toArray) p.1, p.2) ∈ placed 0 insns := by
      have hplaced := (congrArg (placed 0) hmap).symm.trans placed_map_mapLabels
      rw [hplaced]
      exact List.mem_map_of_mem hp
    obtain ⟨_, hjump⟩ := isRead_of_mem hparts hp'
    exact Instruction.exists_encode hjump.jumpFits
  have hcode : ofCode after.toArray = .ok ⟨offsetsOf insns.toArray, parts'.flatten⟩ :=
    ofCode_eq_ok_iff.mpr ⟨hend ▸ hlen, hlabels, parts', hparts', rfl⟩
  exact ⟨hreadable, hlabels, _, hcode, (length_of_ofCode hreadable hcode).trans hend⟩

end Assembled

end ClassText
