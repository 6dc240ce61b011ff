import ClassText.Code.Codec
import ClassText.Proofs.Instruction.Layout

/-!
# Attributes of code are read as they are written

An attribute of code whose offsets belong to labels is written back to the very
bytes it was read from, and one that was not understood is kept as its bytes.
So tables of lines and of variables are read exactly when they are what some
table is written to (`readLines?_eq_some_iff`, `readVariables?_eq_some_iff`).

Only a table of frames is never read: its bytes are kept. `reread` is what comes
back of an attribute that is written and read.
-/

namespace ClassText

open ByteReader Bytes

variable {used bytes : Bytes}

/-! ## Attributes in general -/

namespace Attribute

variable {β : Type} {a : Attribute β}

theorem takes_read {body : PoolIndex → Bytes → Except ClassError β} :
    (Attribute.read body).Takes used a ↔ ∃ bytes, bytes.length < 2 ^ 32 ∧
      body a.name bytes = .ok a.body ∧ used = word16 a.name ++ Written.block bytes := by
  rw [Attribute.read, takes_bind]
  constructor
  · rintro ⟨_, _, name, rfl, hname, h⟩
    obtain ⟨_, _, length, rfl, hlength, h⟩ := takes_bind.mp h
    obtain ⟨bytes, _, _, rfl, hbytes, h⟩ := takes_bind.mp h
    obtain ⟨value, hvalue, rfl⟩ := takes_map.mp h
    obtain ⟨rfl, hbody⟩ := takes_ofExcept.mp hvalue
    obtain ⟨rfl, hlen⟩ := takes_take.mp hbytes
    have hlt := length.toNat_lt
    refine ⟨bytes, by omega, hbody, ?_⟩
    rw [takes_word16.mp hname, takes_word32.mp hlength, List.append_nil, Written.block, hlen,
      UInt32.ofNat_toNat]
  · rintro ⟨bytes, hlt, hbody, rfl⟩
    have hlen : (UInt32.ofNat bytes.length).toNat = bytes.length := by
      rw [UInt32.toNat_ofNat', Nat.mod_eq_of_lt hlt]
    refine ⟨_, _, _, rfl, takes_word16.mpr rfl, Takes.bind (takes_word32.mpr rfl) ?_⟩
    rw [hlen]
    exact takes_bind.mpr ⟨bytes, [], bytes, (List.append_nil _).symm, takes_take.mpr ⟨rfl, rfl⟩,
      takes_map.mpr ⟨_, takes_ofExcept.mpr ⟨rfl, hbody⟩, rfl⟩⟩

theorem write_eq_ok_iff {body : β → Written} :
    Attribute.write body a = .ok used ↔
      ∃ bytes, body a.body = .ok bytes ∧ used = word16 a.name ++ Written.block bytes := by
  rw [Attribute.write, Success.bind_eq_ok]
  constructor
  · rintro ⟨bytes, hbytes, h⟩
    exact ⟨bytes, hbytes, (Except.ok.inj h).symm⟩
  · rintro ⟨bytes, hbytes, rfl⟩
    exact ⟨bytes, hbytes, rfl⟩

end Attribute

theorem ByteReader.whole?_eq_some_iff {α : Type} {reader : ByteReader α} {a : α} :
    reader.whole? bytes = some a ↔ reader.Takes bytes a := by
  rw [takes_iff_run, whole?]
  split <;> simp_all

/-- What comes back of a body that is written and read: the bytes of a table of frames, and
anything else as it was. -/
def CodeAttributeBody.reread : CodeAttributeBody → CodeAttributeBody
  | .frames table =>
    match FrameTable.write table with
    | .ok bytes => .raw bytes
    | .error _ => .frames table
  | body => body

namespace CodeAttribute

open Assembled

variable {code : Array Instruction}

/-! ## Labels -/

theorem toNat_offset (hend : endOf 0 code.toList ≤ 65535) (l : Nat) :
    (UInt16.ofNat ((offsetsOf code).getD l 0)).toNat = (offsetsOf code).getD l 0 := by
  have hle := Nat.le_trans (getD_offsetsOf_le code l) hend
  rw [UInt16.toNat_ofNat', Nat.mod_eq_of_lt (by omega)]

/-- A table is read, entry by entry, exactly from the bytes to which some table is written. -/
theorem table?_eq_some_iff {α γ : Type} {item : ByteReader γ} {convert : γ → Option α}
    {write : α → Bytes} {P : α → Prop}
    (hentry : ∀ part a, (∃ c, item.Takes part c ∧ convert c = some a) ↔ P a ∧ part = write a)
    {entries : List α} :
    (whole? (.counted item) bytes).bind (·.mapM convert) = some entries ↔
      (∀ e ∈ entries, P e) ∧ entries.length ≤ 65535 ∧
        bytes = word16 (.ofNat entries.length) ++ (entries.map write).flatten := by
  rw [Option.bind_eq_some_iff]
  constructor
  · rintro ⟨items, hitems, hconvert⟩
    obtain ⟨parts, hparts, hle, rfl⟩ := takes_counted.mp (whole?_eq_some_iff.mp hitems)
    have hforall := Success.mapM_eq_some.mp hconvert
    obtain ⟨hmap, hall⟩ := Success.map_eq_of_forall₂ write P
      (fun part a h => ((hentry part a).mp h).symm.imp_left Eq.symm)
      (Success.forall₂_steps hparts hforall)
    rw [← hforall.length_eq, hmap]
    exact ⟨hall, hle, rfl⟩
  · rintro ⟨hall, hle, rfl⟩
    have hsteps : List.Forall₂ (fun part a => ∃ c, item.Takes part c ∧ convert c = some a)
        (entries.map write) entries := by
      rw [List.forall₂_map_left_iff, List.forall₂_same]
      exact fun e he => (hentry _ e).mpr ⟨hall e he, rfl⟩
    obtain ⟨items, hparts, hconvert⟩ := Success.exists_middle hsteps
    refine ⟨items, whole?_eq_some_iff.mpr (takes_counted.mpr ⟨_, hparts, ?_, ?_⟩),
      Success.mapM_eq_some.mpr hconvert⟩
    · rwa [hconvert.length_eq]
    · rw [hconvert.length_eq]

theorem truncated_eq_ok_iff {α : Type} {write : α → Bytes} {entries : List α} :
    Written.truncated (fun e => .ok (write e)) entries = .ok bytes ↔
      bytes = word16 (.ofNat entries.length) ++ (entries.map write).flatten := by
  rw [Written.truncated_eq_ok_iff]
  constructor
  · rintro ⟨parts, hparts, rfl⟩
    have heq : entries.map write = parts := by
      rw [← List.forall₂_eq_eq_eq, List.forall₂_map_left_iff]
      exact hparts.imp fun _ _ h => Except.ok.inj h
    rw [heq]
  · rintro rfl
    refine ⟨entries.map write, ?_, rfl⟩
    rw [List.forall₂_map_right_iff, List.forall₂_same]
    exact fun _ _ => rfl

/-! ## Lines -/

/-- Does the line begin at an instruction? -/
def IsLineIn (code : Array Instruction) (entry : SourceLine) : Prop :=
  entry.start < code.size

theorem readLines?_eq_some_iff (hend : endOf 0 code.toList ≤ 65535)
    {entries : List SourceLine} :
    readLines? (offsetsOf code) bytes = some entries ↔
      (∀ e ∈ entries, IsLineIn code e) ∧ entries.length ≤ 65535 ∧
        writeBody (offsetsOf code) (.lines entries) = .ok bytes := by
  rw [writeBody, truncated_eq_ok_iff]
  refine table?_eq_some_iff fun part a => ?_
  constructor
  · rintro ⟨⟨start, line⟩, htakes, hconvert⟩
    obtain ⟨first, _, _, rfl, hfirst, h⟩ := takes_bind.mp htakes
    obtain ⟨_, hsecond, heq⟩ := takes_map.mp h
    obtain ⟨rfl, rfl⟩ := Prod.mk.inj heq
    obtain ⟨l, hl, heq⟩ := Option.bind_eq_some_iff.mp hconvert
    cases heq
    obtain ⟨hlt, ho⟩ := startAt?_eq_some_iff.mp hl
    refine ⟨hlt, ?_⟩
    rw [takes_word16.mp hfirst, takes_word16.mp hsecond, writeLine, writeLabel, ho,
      UInt16.ofNat_toNat]
  · rintro ⟨hlt, rfl⟩
    refine ⟨(_, a.line), Takes.bind (takes_word16.mpr rfl)
      (takes_map.mpr ⟨_, takes_word16.mpr rfl, rfl⟩), ?_⟩
    refine Option.bind_eq_some_iff.mpr ⟨a.start, startAt?_eq_some_iff.mpr ⟨hlt, ?_⟩, rfl⟩
    rw [toNat_offset hend]

/-! ## Variables -/

/-- Does the range of the variable lie within the code? -/
def IsVariableIn (code : Array Instruction) (entry : SourceVariable) : Prop :=
  entry.start ≤ entry.stop ∧ entry.stop ≤ code.size

theorem readVariables?_eq_some_iff (hend : endOf 0 code.toList ≤ 65535)
    {entries : List SourceVariable} :
    readVariables? (offsetsOf code) bytes = some entries ↔
      (∀ e ∈ entries, IsVariableIn code e) ∧ entries.length ≤ 65535 ∧
        writeBody (offsetsOf code) (.variables entries) = .ok bytes := by
  rw [writeBody, truncated_eq_ok_iff]
  refine table?_eq_some_iff fun part a => ?_
  constructor
  · rintro ⟨⟨start, length, name, descriptor, slot⟩, htakes, hconvert⟩
    obtain ⟨_, _, _, rfl, hstart, h⟩ := takes_bind.mp htakes
    obtain ⟨_, _, _, rfl, hlength, h⟩ := takes_bind.mp h
    obtain ⟨_, _, _, rfl, hname, h⟩ := takes_bind.mp h
    obtain ⟨_, _, _, rfl, hdescriptor, h⟩ := takes_bind.mp h
    obtain ⟨_, hslot, heq⟩ := takes_map.mp h
    cases heq
    obtain ⟨l, hl, h⟩ := Option.bind_eq_some_iff.mp hconvert
    obtain ⟨l', hl', heq⟩ := Option.bind_eq_some_iff.mp h
    cases heq
    obtain ⟨hle, ho⟩ := labelAt?_eq_some_iff.mp hl
    obtain ⟨hle', ho'⟩ := labelAt?_eq_some_iff.mp hl'
    -- Offsets grow from label to label, so a range with a length ends behind its start.
    have hrange : l ≤ l' := by
      by_contra hlt
      have hless := getD_offsetsOf_lt (Nat.lt_of_not_le hlt) hle
      omega
    refine ⟨⟨hrange, hle'⟩, ?_⟩
    rw [takes_word16.mp hstart, takes_word16.mp hlength, takes_word16.mp hname,
      takes_word16.mp hdescriptor, takes_word16.mp hslot, writeVariable, writeLabel, ho, ho',
      Nat.add_sub_cancel_left, UInt16.ofNat_toNat, UInt16.ofNat_toNat]
    simp only [List.append_assoc]
  · rintro ⟨⟨hrange, hle⟩, rfl⟩
    have hmono := getD_offsetsOf_mono hrange hle
    have hstart := toNat_offset hend a.start
    have hlength : (UInt16.ofNat ((offsetsOf code).getD a.stop 0 -
        (offsetsOf code).getD a.start 0)).toNat =
          (offsetsOf code).getD a.stop 0 - (offsetsOf code).getD a.start 0 := by
      have hstop := Nat.le_trans (getD_offsetsOf_le code a.stop) hend
      rw [UInt16.toNat_ofNat', Nat.mod_eq_of_lt (by omega)]
    refine ⟨(.ofNat ((offsetsOf code).getD a.start 0),
      .ofNat ((offsetsOf code).getD a.stop 0 - (offsetsOf code).getD a.start 0),
      a.name, a.descriptor, a.slot), ?_, ?_⟩
    · simp only [writeVariable, List.append_assoc]
      exact Takes.bind (takes_word16.mpr rfl) (Takes.bind (takes_word16.mpr rfl)
        (Takes.bind (takes_word16.mpr rfl) (Takes.bind (takes_word16.mpr rfl)
          (takes_map.mpr ⟨_, takes_word16.mpr rfl, rfl⟩))))
    · refine Option.bind_eq_some_iff.mpr ⟨a.start, labelAt?_eq_some_iff.mpr
        ⟨Nat.le_trans hrange hle, hstart.symm⟩, Option.bind_eq_some_iff.mpr ⟨a.stop,
          labelAt?_eq_some_iff.mpr ⟨hle, ?_⟩, rfl⟩⟩
      rw [hstart, hlength]
      omega

/-! ## Bodies -/

/-- What comes back of a body is written to the same bytes. -/
theorem writeBody_reread (offsets : Array Nat) (body : CodeAttributeBody) :
    writeBody offsets body.reread = writeBody offsets body := by
  rcases body with _ | _ | _ | table | _
  case frames =>
    cases hwrite : FrameTable.write table with
    | ok bytes => simp only [CodeAttributeBody.reread, hwrite, writeBody]
    | error e => simp only [CodeAttributeBody.reread, hwrite]
  all_goals rfl

/-- Is this a body that an attribute of the name has when it is read, or a table of frames? -/
def HasBody (code : Array Instruction) (name : String) : CodeAttributeBody → Prop
  | .lines entries =>
    name = lineTable ∧ (∀ e ∈ entries, IsLineIn code e) ∧ entries.length ≤ 65535
  | .variables entries =>
    name = variableTable ∧ (∀ e ∈ entries, IsVariableIn code e) ∧ entries.length ≤ 65535
  | .variableTypes entries =>
    name = variableTypeTable ∧ (∀ e ∈ entries, IsVariableIn code e) ∧ entries.length ≤ 65535
  | .frames _ => name = frameTable
  | .raw bytes => bodyOf (offsetsOf code) name bytes = .raw bytes

theorem bodyOf_of_write (hend : endOf 0 code.toList ≤ 65535) :
    ∀ {name : String} {body : CodeAttributeBody}, HasBody code name body →
      writeBody (offsetsOf code) body = .ok bytes →
        bodyOf (offsetsOf code) name bytes = body.reread
  | _, .lines _, ⟨rfl, hall, hle⟩, h => by
    rw [bodyOf, if_pos rfl, (readLines?_eq_some_iff hend).mpr ⟨hall, hle, h⟩]
    rfl
  | _, .variables _, ⟨rfl, hall, hle⟩, h => by
    rw [bodyOf, if_neg (by decide), if_pos rfl,
      (readVariables?_eq_some_iff hend).mpr ⟨hall, hle, h⟩]
    rfl
  | _, .variableTypes _, ⟨rfl, hall, hle⟩, h => by
    rw [bodyOf, if_neg (by decide), if_neg (by decide), if_pos rfl,
      (readVariables?_eq_some_iff hend).mpr ⟨hall, hle, h⟩]
    rfl
  | _, .frames table, rfl, h => by
    rw [bodyOf, if_neg (by decide), if_neg (by decide), if_neg (by decide),
      CodeAttributeBody.reread, show FrameTable.write table = .ok bytes from h]
    rfl
  | _, .raw _, hraw, rfl => hraw

/-- A body is a table that its name announces, or else the bytes. -/
theorem bodyOf_cases (offsets : Array Nat) (name : String) (bytes : Bytes) :
    (name = lineTable ∧ ∃ entries, readLines? offsets bytes = some entries ∧
      bodyOf offsets name bytes = .lines entries) ∨
    (name = variableTable ∧ ∃ entries, readVariables? offsets bytes = some entries ∧
      bodyOf offsets name bytes = .variables entries) ∨
    (name = variableTypeTable ∧ ∃ entries, readVariables? offsets bytes = some entries ∧
      bodyOf offsets name bytes = .variableTypes entries) ∨
    bodyOf offsets name bytes = .raw bytes := by
  unfold bodyOf
  split_ifs with hlines hvariables htypes
  · rcases readLines? offsets bytes with _ | entries
    · exact .inr (.inr (.inr rfl))
    · exact .inl ⟨hlines, entries, rfl, rfl⟩
  · rcases readVariables? offsets bytes with _ | entries
    · exact .inr (.inr (.inr rfl))
    · exact .inr (.inl ⟨hvariables, entries, rfl, rfl⟩)
  · rcases readVariables? offsets bytes with _ | entries
    · exact .inr (.inr (.inr rfl))
    · exact .inr (.inr (.inl ⟨htypes, entries, rfl, rfl⟩))
  · exact .inr (.inr (.inr rfl))

/-- A body that was read belongs to its name, and is written to the bytes it was read from. -/
theorem bodyOf_spec (hend : endOf 0 code.toList ≤ 65535) {name : String}
    {body : CodeAttributeBody} (h : bodyOf (offsetsOf code) name bytes = body) :
    HasBody code name body ∧ writeBody (offsetsOf code) body = .ok bytes ∧
      body.reread = body := by
  rcases bodyOf_cases (offsetsOf code) name bytes with ⟨hname, entries, hread, heq⟩ |
    ⟨hname, entries, hread, heq⟩ | ⟨hname, entries, hread, heq⟩ | heq
  · obtain ⟨hall, hle, hwrite⟩ := (readLines?_eq_some_iff hend).mp hread
    obtain rfl := h.symm.trans heq
    exact ⟨⟨hname, hall, hle⟩, hwrite, rfl⟩
  · obtain ⟨hall, hle, hwrite⟩ := (readVariables?_eq_some_iff hend).mp hread
    obtain rfl := h.symm.trans heq
    exact ⟨⟨hname, hall, hle⟩, hwrite, rfl⟩
  · obtain ⟨hall, hle, hwrite⟩ := (readVariables?_eq_some_iff hend).mp hread
    obtain rfl := h.symm.trans heq
    exact ⟨⟨hname, hall, hle⟩, hwrite, rfl⟩
  · obtain rfl := h.symm.trans heq
    exact ⟨h, rfl, rfl⟩

/-! ## Attributes -/

variable {pool : ConstantPool} {a : CodeAttribute}

/-- Is there a name for the attribute, and does its body belong to it? -/
def IsReadable (pool : ConstantPool) (code : Array Instruction) (a : CodeAttribute) : Prop :=
  ∃ name, pool.text a.name = .ok name ∧ HasBody code name a.body

/-- What comes back of an attribute that is written and read. -/
def reread (a : CodeAttribute) : CodeAttribute :=
  ⟨a.name, a.body.reread⟩

theorem length_lt_of_block (h : (word16 a.name ++ Written.block bytes).length < 2 ^ 32) :
    bytes.length < 2 ^ 32 := by
  rw [List.length_append, Written.block, List.length_append] at h
  omega

/-- An attribute that was written is read again. -/
theorem takes_of_write (hend : endOf 0 code.toList ≤ 65535) (hread : IsReadable pool code a)
    (h : write (offsetsOf code) a = .ok used) (hlen : used.length < 2 ^ 32) :
    (read pool (offsetsOf code)).Takes used (reread a) := by
  obtain ⟨name, hname, hbody⟩ := hread
  obtain ⟨bytes, hbytes, rfl⟩ := Attribute.write_eq_ok_iff.mp h
  refine Attribute.takes_read.mpr ⟨bytes, length_lt_of_block hlen, ?_, rfl⟩
  exact Success.bind_eq_ok.mpr
    ⟨name, hname, congrArg Except.ok (bodyOf_of_write hend hbody hbytes)⟩

/-- An attribute that was read is written to the bytes it was read from. -/
theorem write_of_takes (hend : endOf 0 code.toList ≤ 65535)
    (h : (read pool (offsetsOf code)).Takes used a) :
    IsReadable pool code a ∧ write (offsetsOf code) a = .ok used ∧ reread a = a := by
  obtain ⟨bytes, -, hbody, rfl⟩ := Attribute.takes_read.mp h
  obtain ⟨name, hname, heq⟩ := Success.bind_eq_ok.mp hbody
  obtain ⟨hhas, hwrite, hreread⟩ := bodyOf_spec hend (Except.ok.inj heq)
  refine ⟨⟨name, hname, hhas⟩, Attribute.write_eq_ok_iff.mpr ⟨bytes, hwrite, rfl⟩, ?_⟩
  rw [reread, hreread]

end CodeAttribute

end ClassText
