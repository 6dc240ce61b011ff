import ClassText.Proofs.Code.Attribute

/-!
# Code is read as it is written

Code that was written is read with the same instructions, handlers and
attributes; its labels are those of the layout in which it was written. Code
that was read is written to as many bytes as it was read from, and comes back as
it was: the bytes of its instructions may differ, for some instructions can be
spelled in more than one way, but their offsets cannot.
-/

namespace ClassText

open ByteReader Bytes Assembled

variable {used bytes : Bytes}

namespace Handler

variable {code : Array Instruction} {handler : Handler}

/-- Are the labels those of instructions, or of the end where that is allowed, and is the class
none rather than zero? -/
def IsReadable (code : Array Instruction) (handler : Handler) : Prop :=
  handler.start < code.size ∧ handler.stop ≤ code.size ∧ handler.target < code.size ∧
    handler.catchType ≠ some 0

theorem takes_label {found : Option Label} {offset : UInt16} {l : Label} :
    (label found offset).Takes used l ↔ used = [] ∧ found = some l := by
  cases found with
  | none => exact ⟨fun h => (takes_fail h).elim, fun h => (nomatch h.2)⟩
  | some label => rw [Handler.label, takes_pure, Option.some.injEq]

theorem takes_readStart (hend : endOf 0 code.toList ≤ 65535) {l : Nat} :
    (readStart (offsetsOf code)).Takes used l ↔
      l < code.size ∧ used = CodeAttribute.writeLabel (offsetsOf code) l := by
  rw [readStart, takes_bind]
  constructor
  · rintro ⟨_, _, offset, rfl, hoffset, h⟩
    obtain ⟨rfl, hfound⟩ := takes_label.mp h
    obtain ⟨hlt, ho⟩ := startAt?_eq_some_iff.mp hfound
    exact ⟨hlt, by rw [takes_word16.mp hoffset, CodeAttribute.writeLabel, ho, UInt16.ofNat_toNat,
      List.append_nil]⟩
  · rintro ⟨hlt, rfl⟩
    refine ⟨_, [], _, (List.append_nil _).symm, takes_word16.mpr rfl, takes_label.mpr ⟨rfl, ?_⟩⟩
    exact startAt?_eq_some_iff.mpr ⟨hlt, (CodeAttribute.toNat_offset hend l).symm⟩

theorem takes_readStop (hend : endOf 0 code.toList ≤ 65535) {l : Nat} :
    (readStop (offsetsOf code)).Takes used l ↔
      l ≤ code.size ∧ used = CodeAttribute.writeLabel (offsetsOf code) l := by
  rw [readStop, takes_bind]
  constructor
  · rintro ⟨_, _, offset, rfl, hoffset, h⟩
    obtain ⟨rfl, hfound⟩ := takes_label.mp h
    obtain ⟨hle, ho⟩ := labelAt?_eq_some_iff.mp hfound
    exact ⟨hle, by rw [takes_word16.mp hoffset, CodeAttribute.writeLabel, ho, UInt16.ofNat_toNat,
      List.append_nil]⟩
  · rintro ⟨hle, rfl⟩
    refine ⟨_, [], _, (List.append_nil _).symm, takes_word16.mpr rfl, takes_label.mpr ⟨rfl, ?_⟩⟩
    exact labelAt?_eq_some_iff.mpr ⟨hle, (CodeAttribute.toNat_offset hend l).symm⟩

/-- Absence is written as zero. -/
theorem optional_eq {index : UInt16} {type : Option UInt16} :
    (if index = 0 then none else some index) = type ↔ type ≠ some 0 ∧ index = type.getD 0 := by
  by_cases hzero : index = 0
  · rw [if_pos hzero]
    cases type with
    | none => exact ⟨fun _ => ⟨fun h => (nomatch h), hzero⟩, fun _ => rfl⟩
    | some type =>
      exact ⟨fun h => (nomatch h),
        fun h => (h.1 (congrArg some (h.2.symm.trans hzero))).elim⟩
  · rw [if_neg hzero]
    cases type with
    | none => exact ⟨fun h => (nomatch h), fun h => (hzero h.2).elim⟩
    | some type => exact ⟨fun h => by cases h; exact ⟨fun h => hzero (Option.some.inj h), rfl⟩,
        fun h => congrArg some h.2⟩

/-- A handler is read exactly from the bytes to which it is written. -/
theorem takes_read (hend : endOf 0 code.toList ≤ 65535) :
    (read (offsetsOf code)).Takes used handler ↔
      handler.IsReadable code ∧ used = handler.write (offsetsOf code) := by
  rw [read, takes_bind]
  constructor
  · rintro ⟨_, _, start, rfl, hstart, h⟩
    obtain ⟨_, _, stop, rfl, hstop, h⟩ := takes_bind.mp h
    obtain ⟨_, _, target, rfl, htarget, h⟩ := takes_bind.mp h
    obtain ⟨index, hindex, rfl⟩ := takes_map.mp h
    obtain ⟨hstart', rfl⟩ := (takes_readStart hend).mp hstart
    obtain ⟨hstop', rfl⟩ := (takes_readStop hend).mp hstop
    obtain ⟨htarget', rfl⟩ := (takes_readStart hend).mp htarget
    obtain ⟨hne, hzero⟩ := optional_eq.mp (Eq.refl (if index = 0 then none else some index))
    refine ⟨⟨hstart', hstop', htarget', hne⟩, ?_⟩
    rw [takes_word16.mp hindex, write, ← hzero]
    simp only [List.append_assoc]
  · rintro ⟨⟨hstart, hstop, htarget, hne⟩, rfl⟩
    simp only [write, List.append_assoc]
    refine ⟨_, _, handler.start, rfl, (takes_readStart hend).mpr ⟨hstart, rfl⟩, ?_⟩
    refine Takes.bind ((takes_readStop hend).mpr ⟨hstop, rfl⟩) ?_
    refine Takes.bind ((takes_readStart hend).mpr ⟨htarget, rfl⟩) ?_
    exact takes_map.mpr ⟨_, takes_word16.mpr rfl, by rw [optional_eq.mpr ⟨hne, rfl⟩]⟩

end Handler

namespace Code

variable {pool : ConstantPool} {code : Code}

/-- Can everything in the code be read, once it is written? -/
structure IsReadable (pool : ConstantPool) (code : Code) : Prop where
  instructions : Assembled.IsReadable code.instructions
  nonempty : code.instructions ≠ #[]
  short : endOf 0 code.instructions.toList ≤ 65535
  handlers : ∀ h ∈ code.handlers, h.IsReadable code.instructions
  handlers_le : code.handlers.length ≤ 65535
  attributes : ∀ a ∈ code.attributes, CodeAttribute.IsReadable pool code.instructions a
  attributes_le : code.attributes.length ≤ 65535

/-- What comes back of code that is written and read: the labels have the offsets of its layout,
and tables of frames are kept as bytes. -/
def reread (code : Code) : Code :=
  { code with
    sourceOffsets := offsetsOf code.instructions
    attributes := code.attributes.map CodeAttribute.reread }

theorem write_reread (code : Code) : code.reread.write = code.write := by
  have hattributes (offsets : Array Nat) : (code.attributes.map CodeAttribute.reread).mapM
      (CodeAttribute.write offsets) = code.attributes.mapM (CodeAttribute.write offsets) := by
    rw [List.mapM_map]
    refine congrArg (fun write => List.mapM write code.attributes) (funext fun a => ?_)
    simp only [Function.comp, CodeAttribute.write, Attribute.write, CodeAttribute.reread,
      CodeAttribute.writeBody_reread]
  simp only [write, assembleToWrite, assemble, reread, Written.truncated, Written.concat,
    hattributes, List.length_map]

theorem write_eq_ok_iff :
    code.write = .ok used ↔ ∃ offsets bytes parts,
      Assembled.ofCode code.instructions = .ok ⟨offsets, bytes⟩ ∧
      List.Forall₂ (fun a part => CodeAttribute.write offsets a = .ok part) code.attributes
        parts ∧
      used = word16 code.maxStack ++ (word16 code.maxLocals ++ (Written.block bytes ++
        (word16 (.ofNat code.handlers.length) ++
          (code.handlers.map (Handler.write offsets)).flatten ++
        (word16 (.ofNat code.attributes.length) ++ parts.flatten)))) := by
  rw [write, Success.bind_eq_ok]
  constructor
  · rintro ⟨⟨offsets, bytes⟩, hcode, h⟩
    obtain ⟨handlers, hhandlers, h⟩ := Success.bind_eq_ok.mp h
    obtain ⟨attributes, hattributes, h⟩ := Success.bind_eq_ok.mp h
    obtain ⟨parts, hparts, rfl⟩ := Written.truncated_eq_ok_iff.mp hattributes
    refine ⟨offsets, bytes, parts, Success.mapError_eq_ok.mp hcode, hparts, ?_⟩
    rw [← Except.ok.inj h, CodeAttribute.truncated_eq_ok_iff.mp hhandlers]
    simp only [List.append_assoc]
  · rintro ⟨offsets, bytes, parts, hcode, hparts, rfl⟩
    refine ⟨_, Success.mapError_eq_ok.mpr hcode, Success.bind_eq_ok.mpr
      ⟨_, CodeAttribute.truncated_eq_ok_iff.mpr rfl, Success.bind_eq_ok.mpr
        ⟨_, Written.truncated_eq_ok_iff.mpr ⟨parts, hparts, rfl⟩, ?_⟩⟩⟩
    simp only [List.append_assoc]
    rfl

/-- Code is read from its limits, its instructions, its handlers and its attributes. -/
theorem takes_read :
    (read pool).Takes used code ↔ ∃ bytes handlers attributes : Bytes,
      0 < bytes.length ∧ bytes.length ≤ 65535 ∧
      Decoded.ofBytes bytes = .ok ⟨code.instructions, code.sourceOffsets⟩ ∧
      (counted (Handler.read code.sourceOffsets)).Takes handlers code.handlers ∧
      (counted (CodeAttribute.read pool code.sourceOffsets)).Takes attributes code.attributes ∧
      used = word16 code.maxStack ++ (word16 code.maxLocals ++ (Written.block bytes ++
        (handlers ++ attributes))) := by
  constructor
  · intro h
    obtain ⟨_, _, maxStack, rfl, hmaxStack, h₁⟩ := takes_bind.mp h
    obtain ⟨_, _, maxLocals, rfl, hmaxLocals, h₂⟩ := takes_bind.mp h₁
    obtain ⟨_, _, length, rfl, hlength, h₃⟩ := takes_bind.mp h₂
    obtain ⟨hbound, h₄⟩ := takes_check.mp h₃
    obtain ⟨_, _, bytes, rfl, hbytes, h₅⟩ := takes_bind.mp h₄
    obtain ⟨_, _, ⟨instructions, offsets⟩, rfl, hresult, h₆⟩ := takes_bind.mp h₅
    obtain ⟨handlerBytes, attributeBytes, handlers, rfl, hhandlers, h₇⟩ := takes_bind.mp h₆
    obtain ⟨attributes, hattributes, rfl⟩ := takes_map.mp h₇
    obtain ⟨rfl, hlen⟩ := takes_take.mp hbytes
    obtain ⟨rfl, hdecoded⟩ := takes_ofExcept.mp hresult
    refine ⟨_, _, _, by omega, by omega, hdecoded, hhandlers, hattributes, ?_⟩
    rw [takes_word16.mp hmaxStack, takes_word16.mp hmaxLocals, takes_word32.mp hlength,
      Written.block, hlen, UInt32.ofNat_toNat, List.append_assoc]
    rfl
  · rintro ⟨bytes, handlers, attributes, hpos, hle, hdecoded, hhandlers, hattributes, rfl⟩
    have hlength : (UInt32.ofNat bytes.length).toNat = bytes.length := by
      rw [UInt32.toNat_ofNat', Nat.mod_eq_of_lt (by omega)]
    refine Takes.bind (takes_word16.mpr rfl) (Takes.bind (takes_word16.mpr rfl) ?_)
    rw [Written.block, List.append_assoc]
    refine Takes.bind (takes_word32.mpr rfl) ?_
    rw [hlength, if_neg (by omega)]
    refine Takes.bind (takes_take.mpr ⟨rfl, rfl⟩) ?_
    refine takes_ofExcept_bind hdecoded ?_
    exact hhandlers.bind (takes_map.mpr ⟨_, hattributes, rfl⟩)

/-- Code that was written is read again. -/
theorem takes_of_write (hread : code.IsReadable pool) (h : code.write = .ok used)
    (hlen : used.length < 2 ^ 32) : (read pool).Takes used code.reread := by
  obtain ⟨offsets, bytes, parts, hcode, hparts, rfl⟩ := write_eq_ok_iff.mp h
  obtain ⟨hend, rfl, -⟩ := ofCode_eq_ok_iff.mp hcode
  have hbytes := length_of_ofCode hread.instructions hcode
  have hpos : 0 < endOf 0 code.instructions.toList := lt_endOf fun h =>
    hread.nonempty (Array.toList_eq_nil_iff.mp h)
  have hhandlers : (counted (Handler.read (offsetsOf code.instructions))).Takes _ code.handlers :=
    takes_counted.mpr ⟨code.handlers.map (Handler.write (offsetsOf code.instructions)), by
      rw [List.forall₂_map_left_iff, List.forall₂_same]
      exact fun handler hmem => (Handler.takes_read hend).mpr ⟨hread.handlers handler hmem, rfl⟩,
      hread.handlers_le, rfl⟩
  have hattributes : (counted (CodeAttribute.read pool (offsetsOf code.instructions))).Takes _
      (code.attributes.map CodeAttribute.reread) :=
    takes_counted_of_parts hparts hread.attributes_le fun a ha part hpart hwrite => by
      refine CodeAttribute.takes_of_write hend (hread.attributes a ha) hwrite ?_
      have hle := (List.sublist_flatten_of_mem hpart).length_le
      simp only [List.length_append] at hlen
      omega
  exact takes_read.mpr ⟨bytes, _, _, by omega, by omega, ofBytes_of_ofCode hread.instructions hcode,
    hhandlers, hattributes, rfl⟩

/-- Code that was read can be read again, and comes back as it was. -/
theorem isReadable_of_takes (h : (read pool).Takes used code) :
    code.IsReadable pool ∧ code.reread = code := by
  obtain ⟨bytes, _, _, hpos, hle, hdecoded, hhandlers, hattributes, rfl⟩ := takes_read.mp h
  obtain ⟨hinstructions, hoffsets, bytes', hcode, hlen⟩ := ofCode_of_ofBytes hdecoded hle
  obtain ⟨hend, -⟩ := ofCode_eq_ok_iff.mp hcode
  rw [hoffsets] at hhandlers hattributes
  obtain ⟨handlerParts, hforall, hhandlers_le, -⟩ := takes_counted.mp hhandlers
  obtain ⟨parts, hparts, hattributes_le, -⟩ := takes_counted.mp hattributes
  have hread : ∀ a ∈ code.attributes,
      CodeAttribute.IsReadable pool code.instructions a ∧ a.reread = a := by
    intro a ha
    obtain ⟨part, hpart⟩ := Success.exists_of_mem_right hparts a ha
    obtain ⟨hreadable, -, heq⟩ := CodeAttribute.write_of_takes hend hpart
    exact ⟨hreadable, heq⟩
  refine ⟨⟨hinstructions, ?_, hend, ?_, hhandlers_le, fun a ha => (hread a ha).1,
    hattributes_le⟩, ?_⟩
  · intro hnil
    have hzero := length_of_ofCode hinstructions hcode
    rw [hnil] at hzero
    exact absurd (hlen.symm.trans hzero) (Nat.ne_of_gt hpos)
  · intro handler hmem
    obtain ⟨part, hpart⟩ := Success.exists_of_mem_right hforall handler hmem
    exact ((Handler.takes_read hend).mp hpart).1
  · rw [reread, List.map_congr_left fun a ha => (hread a ha).2, List.map_id', ← hoffsets]

/-- Code that was read is written to the bytes it was read from, but for the bytes of its
instructions. -/
theorem exists_write (h : (read pool).Takes used code) :
    ∃ bytes bytes' rest : Bytes, bytes.length ≤ 65535 ∧
      Decoded.ofBytes bytes = .ok ⟨code.instructions, code.sourceOffsets⟩ ∧
      Assembled.ofCode code.instructions = .ok ⟨code.sourceOffsets, bytes'⟩ ∧
      used = word16 code.maxStack ++ (word16 code.maxLocals ++ (Written.block bytes ++ rest)) ∧
      code.write = .ok
        (word16 code.maxStack ++ (word16 code.maxLocals ++ (Written.block bytes' ++ rest))) := by
  obtain ⟨bytes, _, _, -, hle, hdecoded, hhandlers, hattributes, rfl⟩ := takes_read.mp h
  obtain ⟨-, hoffsets, bytes', hcode, -⟩ := ofCode_of_ofBytes hdecoded hle
  obtain ⟨hend, -⟩ := ofCode_eq_ok_iff.mp hcode
  refine ⟨bytes, bytes', _, hle, hdecoded, hcode, rfl, ?_⟩
  rw [hoffsets] at hhandlers hattributes hcode
  obtain ⟨handlerParts, hforall, -, rfl⟩ := takes_counted.mp hhandlers
  obtain ⟨rfl, -⟩ := Success.map_eq_of_forall₂ (Handler.write (offsetsOf code.instructions))
    (fun _ => True) (fun _ _ h => ⟨((Handler.takes_read hend).mp h).2.symm, trivial⟩) hforall
  obtain ⟨parts, hparts, -, rfl⟩ := takes_counted.mp hattributes
  exact write_eq_ok_iff.mpr ⟨_, bytes', parts, hcode,
    (hparts.imp fun _ _ h => (CodeAttribute.write_of_takes hend h).2.1).flip, rfl⟩

/-- Code that was read takes as many bytes when it is written. -/
theorem write_of_takes (h : (read pool).Takes used code) :
    ∃ bytes, code.write = .ok bytes ∧ bytes.length = used.length := by
  obtain ⟨bytes, bytes', rest, hle, hdecoded, hcode, rfl, hwrite⟩ := exists_write h
  obtain ⟨-, -, _, hcode', hlen⟩ := ofCode_of_ofBytes hdecoded hle
  obtain ⟨-, rfl⟩ := Assembled.mk.inj (Except.ok.inj (hcode.symm.trans hcode'))
  exact ⟨_, hwrite, by simp only [List.length_append, Written.block, length_word32, hlen]⟩

end Code

end ClassText
