import ClassText.Proofs.ClassFile.Codec
import ClassText.Proofs.Instruction.Reassembling

/-!
# Class files that are written byte for byte

A class does not tell everything about the bytes it was read from. A text can be
spelled in more than one way, and some bytes of instructions are skipped: the
padding of switches, and the last bytes of two kinds of calls. `Spelling` holds
what is lost: the bytes of the constants one by one, and the methods with the
bytes of their attributes.

If all of that is as it would be written (`Spelling.IsCanonical`), the class is
written to the very bytes it was read from (`toBytes_of_isCanonical`). So
nothing else is lost: every count, length and offset follows from the class.

Most of the work is done by `Shows`. It goes with two readers of the same bytes,
one for values and one for their spelling, and is kept by everything that puts
readers together.
-/

namespace ClassText

open ByteReader Bytes

variable {used bytes : Bytes} {pool : ConstantPool}

/-- The first reader takes the bytes that the second one takes, and gives enough away about them to
tell whether a value is written to the bytes it was read from: it is, if `Q` holds. -/
structure Shows {α γ : Type} (raw : ByteReader γ) (item : ByteReader α) (write : α → Written)
    (Q : γ → Prop) : Prop where
  shown : ∀ {part : Bytes} {a : α}, item.Takes part a → ∃ r, raw.Takes part r
  exact : ∀ {part : Bytes} {a : α} {r : γ}, item.Takes part a → raw.Takes part r → Q r →
    write a = .ok part

namespace Shows

variable {α γ : Type} {raw : ByteReader γ} {item : ByteReader α} {write : α → Written}
  {Q : γ → Prop}

theorem exists_parts (h : Shows raw item write Q) : ∀ {parts : List Bytes} {items : List α},
    List.Forall₂ item.Takes parts items → ∃ raws, List.Forall₂ raw.Takes parts raws
  | _, _, .nil => ⟨[], .nil⟩
  | _, _, .cons hitem hitems =>
    let ⟨r, hr⟩ := h.shown hitem
    let ⟨rs, hrs⟩ := exists_parts h hitems
    ⟨r :: rs, .cons hr hrs⟩

theorem write_parts (h : Shows raw item write Q) :
    ∀ {parts : List Bytes} {items : List α} {raws : List γ}, List.Forall₂ item.Takes parts items →
      List.Forall₂ raw.Takes parts raws → (∀ r ∈ raws, Q r) →
        List.Forall₂ (fun a part => write a = .ok part) items parts
  | _, _, _, .nil, .nil, _ => .nil
  | _, _, _, .cons hitem hitems, .cons hraw hraws, hall =>
    .cons (h.exact hitem hraw (List.forall_mem_cons.mp hall).1)
      (write_parts h hitems hraws (List.forall_mem_cons.mp hall).2)

/-- Items one after the other are shown, if each of them is. -/
theorem ofCounted (h : Shows raw item write Q) :
    Shows (counted raw) (counted item) (Written.counted write) fun raws => ∀ r ∈ raws, Q r where
  shown := by
    intro part items hitems
    obtain ⟨parts, hparts, hle, rfl⟩ := takes_counted.mp hitems
    obtain ⟨raws, hraws⟩ := h.exists_parts hparts
    have hlen : raws.length = items.length := hraws.length_eq.symm.trans hparts.length_eq
    exact ⟨raws, takes_counted.mpr ⟨parts, hraws, hlen ▸ hle, by rw [hlen]⟩⟩
  exact := by
    intro part items raws hitems hraws hall
    obtain ⟨parts, hparts, hle, rfl⟩ := takes_counted.mp hitems
    obtain ⟨raws', hraws'⟩ := h.exists_parts hparts
    have hlen : raws'.length = items.length := hraws'.length_eq.symm.trans hparts.length_eq
    -- the bytes were split in the same way for the spelling
    have hagain : (ByteReader.counted raw).Takes _ raws' :=
      takes_counted.mpr ⟨parts, hraws', hlen ▸ hle, by rw [hlen]⟩
    obtain rfl := hagain.unique_value hraws
    exact Written.counted_eq_ok_iff.mpr ⟨hle, parts, h.write_parts hparts hraws' hall, rfl⟩

variable {β : Type} {body : PoolIndex → Bytes → Except ClassError β} {writeBody : β → Written}
  {P : Attribute Bytes → Prop}

/-- An attribute is shown by its bytes. -/
theorem ofAttribute
    (hbody : ∀ {name : PoolIndex} {bytes : Bytes} {b : β}, body name bytes = .ok b →
      P ⟨name, bytes⟩ → writeBody b = .ok bytes) :
    Shows (Attribute.read rawBody) (Attribute.read body) (Attribute.write writeBody) P where
  shown := by
    intro part a ha
    obtain ⟨bytes, hlen, -, rfl⟩ := Attribute.takes_read.mp ha
    exact ⟨⟨a.name, bytes⟩, Attribute.takes_read.mpr ⟨bytes, hlen, rfl, rfl⟩⟩
  exact := by
    intro part a r ha hr hp
    obtain ⟨bytes, hlen, hbytes, rfl⟩ := Attribute.takes_read.mp ha
    have hagain : (Attribute.read rawBody).Takes _ ⟨a.name, bytes⟩ :=
      Attribute.takes_read.mpr ⟨bytes, hlen, rfl, rfl⟩
    obtain rfl := hagain.unique_value hr
    exact Attribute.write_eq_ok_iff.mpr ⟨bytes, hbody hbytes hp, rfl⟩

/-- A member is shown by its attributes. -/
theorem ofMember (h : Shows (Attribute.read rawBody) (Attribute.read body)
      (Attribute.write writeBody) P) :
    Shows (Member.read rawBody) (Member.read body) (Member.write writeBody)
      fun r => ∀ a ∈ r.attributes, P a where
  shown := by
    intro part m hm
    obtain ⟨_, _, flags, rfl, hflags, h₁⟩ := takes_bind.mp hm
    obtain ⟨_, _, name, rfl, hname, h₂⟩ := takes_bind.mp h₁
    obtain ⟨_, _, descriptor, rfl, hdescriptor, h₃⟩ := takes_bind.mp h₂
    obtain ⟨attributes, hattributes, rfl⟩ := takes_map.mp h₃
    obtain ⟨raws, hraws⟩ := h.ofCounted.shown hattributes
    exact ⟨_, hflags.bind (hname.bind (hdescriptor.bind (takes_map.mpr ⟨raws, hraws, rfl⟩)))⟩
  exact := by
    intro part m r hm hr hall
    obtain ⟨_, _, flags, rfl, hflags, h₁⟩ := takes_bind.mp hm
    obtain ⟨_, _, name, rfl, hname, h₂⟩ := takes_bind.mp h₁
    obtain ⟨_, _, descriptor, rfl, hdescriptor, h₃⟩ := takes_bind.mp h₂
    obtain ⟨attributes, hattributes, rfl⟩ := takes_map.mp h₃
    obtain ⟨raws, hraws⟩ := h.ofCounted.shown hattributes
    have hagain : (Member.read rawBody).Takes _ ⟨flags, name, descriptor, raws⟩ :=
      hflags.bind (hname.bind (hdescriptor.bind (takes_map.mpr ⟨raws, hraws, rfl⟩)))
    obtain rfl := hagain.unique_value hr
    have hwrite := h.ofCounted.exact hattributes hraws hall
    refine Success.bind_eq_ok.mpr ⟨_, hwrite, ?_⟩
    rw [takes_word16.mp hflags, takes_word16.mp hname, takes_word16.mp hdescriptor]
    simp only [List.append_assoc]
    rfl

end Shows

/-! ## Constants -/

/-- What a reader takes, in the place of the value. -/
def ByteReader.spelling {α : Type} (reader : ByteReader α) : ByteReader Bytes where
  run bytes :=
    match reader.run bytes with
    | .error e => .error e
    | .ok (_, rest) => .ok (bytes.take (bytes.length - rest.length), rest)
  law := by
    intro bytes part rest h
    split at h
    · cases h
    · next value rest' hrun =>
      obtain ⟨rfl, rfl⟩ := Prod.mk.inj (Except.ok.inj h)
      obtain ⟨used, rfl, hused⟩ := reader.law hrun
      exact ⟨used, rfl, fun other => by simp [hused]⟩

theorem ByteReader.takes_spelling {α : Type} {reader : ByteReader α} {a : α}
    (h : reader.Takes used a) : reader.spelling.Takes used used := by
  intro rest
  simp [ByteReader.spelling, h rest]

/-- The bytes are those to which the text that they spell is encoded, if they spell one. -/
def ModifiedUtf8.IsShortest (bytes : Bytes) : Prop :=
  ∀ text, decode? bytes = some text → encode text = bytes

namespace Constant

variable {c : Constant}

/-- The bytes of a text, in those of a constant. -/
def spelledText? : Bytes → Option Bytes
  | 1 :: _ :: _ :: text => some text
  | _ => none

/-- The bytes of a constant spell a text in the shortest way, if it is a text. -/
def IsShortest (bytes : Bytes) : Prop :=
  ∀ text, spelledText? bytes = some text → ModifiedUtf8.IsShortest text

theorem writeBody_ofText_eq {text : Bytes} (hle : text.length ≤ 65535)
    (h : ModifiedUtf8.IsShortest text) :
    (ofText text).writeBody = .ok (word16 (.ofNat text.length) ++ text) := by
  unfold ofText
  split
  · next s hs => exact writeText_eq_ok_iff.mpr (by rw [h s hs]; exact ⟨hle, rfl⟩)
  · exact writeText_eq_ok_iff.mpr ⟨hle, rfl⟩

/-- A constant that is no text is written to the bytes it was read from, and so is a text that was
spelled in the shortest way. -/
theorem writeBody_eq_of_takes {tag : UInt8} (h : (readBody tag).Takes used c)
    (hshortest : IsShortest (tag :: used)) : c.tag = tag ∧ c.writeBody = .ok used := by
  unfold readBody at h
  split at h
  case h_1 htag =>
    obtain rfl : tag = 1 := UInt8.toNat_inj.mp htag
    obtain ⟨text, hle, rfl, rfl⟩ := takes_text.mp h
    refine ⟨?_, writeBody_ofText_eq hle (hshortest text rfl)⟩
    unfold ofText
    split <;> rfl
  case h_12 htag =>
    obtain ⟨kind, member, rfl, rfl⟩ := takes_methodHandle.mp h
    exact ⟨(UInt8.toNat_inj.mp htag).symm, rfl⟩
  case h_8 htag | h_9 htag | h_10 htag | h_11 htag | h_14 htag | h_15 htag =>
    obtain ⟨i, j, rfl, rfl⟩ := takes_pair.mp h
    exact ⟨(UInt8.toNat_inj.mp htag).symm, rfl⟩
  case h_18 => exact (takes_fail h).elim
  case h_2 htag =>
    obtain ⟨value, hvalue, rfl⟩ := takes_map.mp h
    exact ⟨(UInt8.toNat_inj.mp htag).symm, congrArg _ (takes_int32.mp hvalue).symm⟩
  case h_3 htag =>
    obtain ⟨bits, hbits, rfl⟩ := takes_map.mp h
    exact ⟨(UInt8.toNat_inj.mp htag).symm, congrArg _ (takes_word32.mp hbits).symm⟩
  case h_4 htag =>
    obtain ⟨value, hvalue, rfl⟩ := takes_map.mp h
    exact ⟨(UInt8.toNat_inj.mp htag).symm, congrArg _ (takes_int64.mp hvalue).symm⟩
  case h_5 htag =>
    obtain ⟨bits, hbits, rfl⟩ := takes_map.mp h
    exact ⟨(UInt8.toNat_inj.mp htag).symm, congrArg _ (takes_word64.mp hbits).symm⟩
  case h_6 htag | h_7 htag | h_13 htag | h_16 htag | h_17 htag =>
    obtain ⟨i, hi, rfl⟩ := takes_map.mp h
    exact ⟨(UInt8.toNat_inj.mp htag).symm, congrArg _ (takes_word16.mp hi).symm⟩

theorem shows : Shows read.spelling read write IsShortest where
  shown := fun h => ⟨_, takes_spelling h⟩
  exact := by
    intro part c r hc hr hshortest
    obtain rfl := (takes_spelling hc).unique_value hr
    obtain ⟨_, _, tag, rfl, htag, hbody⟩ := takes_bind.mp hc
    obtain rfl := takes_byte.mp htag
    obtain ⟨rfl, hwrite⟩ := writeBody_eq_of_takes hbody hshortest
    exact write_eq_ok_iff.mpr ⟨_, hwrite, rfl⟩

end Constant

/-! ## Code -/

/-- The bytes of the instructions of some code: they follow its limits and their own length. -/
def Code.spelledInstructions : ByteReader Bytes := do
  let _ ← ByteReader.take 4
  ByteReader.take (← .word32).toNat

/-- All bytes of instructions that reading skips are zeros. -/
def Code.SkipsZeros (bytes : Bytes) : Prop :=
  ∀ insns rest, Code.spelledInstructions.run bytes = .ok (insns, rest) →
    ∀ decoded, Decoded.ofBytes insns = .ok decoded →
      ∀ o, Assembled.Skips decoded.instructions decoded.offsets o → insns[o]? = some 0

/-- The instructions of some code are found behind four bytes, whatever these are. -/
theorem Code.takes_spelledInstructions {insns : Bytes} (hle : insns.length ≤ 65535)
    (maxStack maxLocals : UInt16) : Code.spelledInstructions.Takes
      ((word16 maxStack ++ word16 maxLocals) ++ Written.block insns) insns := by
  have hlength : (UInt32.ofNat insns.length).toNat = insns.length := by
    rw [UInt32.toNat_ofNat', Nat.mod_eq_of_lt (by omega)]
  have hlimits : (take 4).Takes (word16 maxStack ++ word16 maxLocals) _ :=
    takes_take.mpr ⟨rfl, rfl⟩
  exact hlimits.bind (Takes.bind (takes_word32.mpr rfl) (takes_take.mpr ⟨rfl, hlength.symm⟩))

theorem Code.write_eq_of_takes {code : Code} (h : (Code.read pool).Takes used code)
    (hzeros : Code.SkipsZeros used) : code.write = .ok used := by
  obtain ⟨insns, insns', rest, hle, hdecoded, hcode, rfl, hwrite⟩ := Code.exists_write h
  obtain rfl : insns' = insns := by
    refine Assembled.eq_of_skips_zeros hle hdecoded hcode (hzeros insns rest ?_ _ hdecoded)
    rw [← Code.takes_spelledInstructions hle code.maxStack code.maxLocals rest]
    simp only [List.append_assoc]
  exact hwrite

/-! ## Class files -/

/-- What a class does not tell about the bytes it was read from. -/
structure Spelling where
  constants : List Bytes
  methods : List (Member Bytes)
deriving DecidableEq

namespace Spelling

/-- The spelling of a class file, up to its methods. The pool tells how many constants it has. -/
def read (pool : ConstantPool) : ByteReader Spelling := do
  let _ ← ByteReader.take (ClassFile.magic.length + 6)
  let constants ← .times pool.entries.length Constant.read.spelling
  let _ ← ByteReader.take 6
  let _ ← ByteReader.counted .word16
  let _ ← ByteReader.counted (Member.read rawBody)
  return ⟨constants, ← .counted (Member.read rawBody)⟩

/-- Everything is spelled as it would be written: texts in the shortest way, and zeros for all bytes
of instructions that reading skips. -/
structure IsCanonical (s : Spelling) (pool : ConstantPool) : Prop where
  constants : ∀ c ∈ s.constants, Constant.IsShortest c
  codes : ∀ m ∈ s.methods, ∀ a ∈ m.attributes,
    pool.text a.name = .ok Code.attributeName → Code.SkipsZeros a.body

end Spelling

/-- A pool in which there is a constant is written to the bytes it was read from, if its constants
are spelled in the shortest way. -/
theorem ConstantPool.exists_spelling (h : ConstantPool.read.Takes used pool) {i : PoolIndex}
    {c : Constant} (hc : pool.get? i = some c) :
    ∃ (body : Bytes) (spelled : List Bytes), used = word16 (.ofNat pool.count) ++ body ∧
      (times pool.entries.length Constant.read.spelling).Takes body spelled ∧
      List.Forall₂ Constant.read.Takes spelled (pool.entries.map (·.2)) ∧
      ((∀ part ∈ spelled, Constant.IsShortest part) → pool.write = .ok used) := by
  obtain ⟨count, parts, constants, rfl, hparts, hrow, hcount⟩ := ConstantPool.exists_parts h
  have hne : constants ≠ [] := by
    rintro rfl
    rw [ConstantPool.get?_eq_some_iff, hrow] at hc
    have hmem : some c ∈ [none] := List.mem_of_getElem? hc
    cases List.mem_singleton.mp hmem
  have hword : word16 (.ofNat pool.count) = word16 count := by
    rw [hcount hne, UInt16.ofNat_toNat]
  have hspelled : List.Forall₂ Constant.read.spelling.Takes parts parts :=
    List.forall₂_same.mpr fun part hpart =>
      let ⟨_, htakes⟩ := Success.exists_of_mem_right hparts.flip part hpart
      takes_spelling htakes
  have hlen : parts.length = pool.entries.length := by
    rw [hparts.length_eq, ← hrow.constants_eq, List.length_map]
  refine ⟨_, parts, by rw [hword], takes_times.mpr ⟨parts, hspelled, hlen, rfl⟩,
    hrow.constants_eq ▸ hparts, fun hall => ?_⟩
  have hwrite := Constant.shows.write_parts hparts hspelled hall
  exact hrow.write_eq_ok_iff.mpr ⟨parts, hwrite, by rw [hword]⟩

/-- A method is written to the bytes it was read from, if its code is, and is read as a member whose
attributes are kept as bytes. -/
theorem Method.shows (pool : ConstantPool) :
    Shows (Member.read rawBody) (Member.read (MethodAttributeBody.ofBytes pool))
      (Member.write MethodAttributeBody.write) fun m => ∀ a ∈ m.attributes,
        pool.text a.name = .ok Code.attributeName → Code.SkipsZeros a.body := by
  refine (Shows.ofAttribute fun {name bytes b} hbody hzeros => ?_).ofMember
  obtain ⟨text, hname, hbody⟩ := Success.bind_eq_ok.mp hbody
  split at hbody
  · next hcode =>
    obtain ⟨code, hread, hbody⟩ := Success.bind_eq_ok.mp hbody
    cases hbody
    exact Code.write_eq_of_takes (MethodAttribute.codeOfBytes_eq_ok_iff.mp hread)
      (hzeros (hcode ▸ hname))
  · cases hbody
    rfl

/-- Attributes that are kept as bytes are written to these bytes. -/
theorem Attribute.shows_raw :
    Shows (Attribute.read rawBody) (Attribute.read rawBody) (Attribute.write .ok) fun _ => True :=
  Shows.ofAttribute fun hbody _ => congrArg Except.ok (Except.ok.inj hbody).symm

namespace ClassFile

variable {c : ClassFile}

/-- The class was read from bytes in which everything is spelled as it would be written. -/
def IsCanonical (c : ClassFile) (bytes : Bytes) : Prop :=
  ∀ s rest, (Spelling.read c.pool).run bytes = .ok (s, rest) → s.IsCanonical c.pool

/-- A class file has a spelling, from which its constants are read, and the class is written to its
bytes if that is canonical. -/
theorem exists_spelling (h : ofBytes bytes = .ok c) :
    ∃ s rest, (Spelling.read c.pool).run bytes = .ok (s, rest) ∧
      List.Forall₂ Constant.read.Takes s.constants (c.pool.entries.map (·.2)) ∧
      (s.IsCanonical c.pool → c.toBytes = .ok bytes) := by
  obtain ⟨_, rfl, hbody⟩ := ofBytes_eq_ok_iff.mp h
  obtain ⟨s, hs, rfl⟩ := takes_readBody.mp hbody
  obtain ⟨name, hname⟩ := hs.thisClass
  obtain ⟨body, constants, hpool, hconstants, htakes, hwritePool⟩ :=
    ConstantPool.exists_spelling hs.pool hname
  obtain ⟨methods, hmethods⟩ := (Method.shows c.pool).ofCounted.shown hs.methods
  have hfront : (take (magic.length + 6)).Takes (magic ++ (word16 c.version.minor ++
      (word16 c.version.major ++ word16 (.ofNat c.pool.count)))) _ := takes_take.mpr ⟨rfl, rfl⟩
  have hmiddle : (take 6).Takes (word16 c.flags ++ (word16 c.thisClass ++
      word16 (c.superClass.getD 0))) _ := takes_take.mpr ⟨rfl, rfl⟩
  have hread : (Spelling.read c.pool).Takes _ ⟨constants, methods⟩ :=
    hfront.bind (hconstants.bind (hmiddle.bind (hs.interfaces.bind (hs.fields.bind
      (takes_map.mpr ⟨methods, hmethods, rfl⟩)))))
  refine ⟨⟨constants, methods⟩, s.attributes, ?_, htakes, fun hcanonical => ?_⟩
  · rw [← hread s.attributes, Sections.joined, hpool]
    simp only [List.append_assoc]
  · have hwriteMethods := (Method.shows c.pool).ofCounted.exact hs.methods hmethods hcanonical.codes
    have hwriteFields := Attribute.shows_raw.ofMember.ofCounted.exact hs.fields hs.fields
      fun _ _ _ _ => trivial
    have hwriteAttributes := Attribute.shows_raw.ofCounted.exact hs.attributes hs.attributes
      fun _ _ => trivial
    exact Success.mapError_eq_ok.mpr (write_eq_ok_iff.mpr ⟨s, {
      pool := hwritePool hcanonical.constants
      interfaces := write_counted_word16 hs.interfaces
      fields := hwriteFields
      methods := hwriteMethods
      attributes := hwriteAttributes }, rfl⟩)

/-- A class is written byte for byte as it was read, if its texts were spelled in the shortest way,
and if the bytes of instructions that reading skips were zeros. -/
theorem toBytes_of_isCanonical (h : ofBytes bytes = .ok c) (hcanonical : c.IsCanonical bytes) :
    c.toBytes = .ok bytes := by
  obtain ⟨s, rest, hread, -, hwrite⟩ := exists_spelling h
  exact hwrite (hcanonical s rest hread)

/-- The class of a method with a switch and a call, and of a text that is none. -/
def paddedBytes : Bytes :=
  [202, 254, 186, 190, 0, 0, 0, 49, 0, 7, 1, 0, 1, 65, 7, 0, 1, 1, 0, 1, 109, 1, 0, 3, 40, 41, 86,
    1, 0, 4, 67, 111, 100, 101, 1, 0, 1, 128, 0, 0, 0, 2, 0, 0, 0, 0, 0, 0, 0, 1, 0, 0, 0, 3, 0, 4,
    0, 1, 0, 5, 0, 0, 0, 42, 0, 1, 0, 1, 0, 0, 0, 30, 196, 25, 0, 0, 170, 0, 0, 0, 0, 0, 0, 25, 0,
    0, 0, 4, 0, 0, 0, 4, 0, 0, 0, 20, 185, 0, 9, 1, 0, 177, 0, 0, 0, 0, 0, 0]

/-- The instructions of its method. -/
def paddedCode : Decoded :=
  ⟨#[.slot Opcode.aload 0 .wide, .tableSwitch 3 4 [2], .invokeInterface 9 1,
    .simple Opcode.returnVoid], #[0, 4, 24, 29, 30]⟩

/-- What stands in these bytes. -/
def paddedClass : ClassFile where
  version := ⟨49, 0⟩
  pool := ⟨#[none, some (.utf8 "A"), some (.classRef 1), some (.utf8 "m"), some (.utf8 "()V"),
    some (.utf8 "Code"), some (.undecodable [128])], by decide⟩
  flags := 0
  thisClass := 2
  superClass := none
  interfaces := []
  fields := []
  methods := [⟨0, 3, 4,
    [⟨5, .code ⟨1, 1, paddedCode.instructions, paddedCode.offsets, [], []⟩⟩]⟩]
  attributes := []

/-- What it does not tell about them. -/
def paddedSpelling : Spelling where
  constants := [[1, 0, 1, 65], [7, 0, 1], [1, 0, 1, 109], [1, 0, 3, 40, 41, 86],
    [1, 0, 4, 67, 111, 100, 101], [1, 0, 1, 128]]
  methods := [⟨0, 3, 4, [⟨5, (paddedBytes.drop 64).take 42⟩]⟩]

theorem isShortest_of_mem_paddedSpelling :
    ∀ c ∈ paddedSpelling.constants, Constant.IsShortest c := by
  have hall : ∀ c ∈ paddedSpelling.constants, ((Constant.spelledText? c).all fun text =>
      (ModifiedUtf8.decode? text).all fun s => ModifiedUtf8.encode s == text) = true := by
    decide +kernel
  intro c hc text htext s hs
  have htrue := hall c hc
  rw [htext, Option.all_some, hs, Option.all_some] at htrue
  exact eq_of_beq htrue

theorem skips_paddedCode {o : Nat}
    (h : Assembled.Skips paddedCode.instructions paddedCode.offsets o) :
    o = 5 ∨ o = 6 ∨ o = 7 ∨ o = 28 := by
  obtain ⟨l, insn, hinsn, hskips⟩ := h
  match l, hinsn with
  | 0, rfl | 3, rfl => exact hskips.elim
  | 1, rfl =>
    have hlt : 4 < o := hskips.1
    have hle : o ≤ 7 := hskips.2
    omega
  | 2, rfl => exact .inr (.inr (.inr hskips))

theorem toBytes_of_isCanonical_padded :
    ofBytes paddedBytes = .ok paddedClass ∧ paddedClass.IsCanonical paddedBytes ∧
      paddedClass.toBytes = .ok paddedBytes := by
  have hread : ofBytes paddedBytes = .ok paddedClass :=
    Success.toOption_eq_some.mp (by decide +kernel)
  have hspelling : (Spelling.read paddedClass.pool).run paddedBytes =
      .ok (paddedSpelling, [0, 0]) :=
    Success.toOption_eq_some.mp (by decide +kernel)
  have hinsns : Code.spelledInstructions.run ((paddedBytes.drop 64).take 42) =
      .ok ((paddedBytes.drop 72).take 30, [0, 0, 0, 0]) :=
    Success.toOption_eq_some.mp (by decide +kernel)
  have hdecoded : Decoded.ofBytes ((paddedBytes.drop 72).take 30) = .ok paddedCode := by
    decide +kernel
  have hcanonical : paddedClass.IsCanonical paddedBytes := by
    intro s rest hs
    obtain ⟨rfl, -⟩ := Prod.mk.inj (Except.ok.inj (hspelling.symm.trans hs))
    refine ⟨isShortest_of_mem_paddedSpelling,
      fun m hm a ha _ insns rest' hrun decoded hdec o ho => ?_⟩
    obtain rfl := List.mem_singleton.mp hm
    obtain rfl := List.mem_singleton.mp ha
    obtain ⟨rfl, -⟩ := Prod.mk.inj (Except.ok.inj (hinsns.symm.trans hrun))
    obtain rfl := Except.ok.inj (hdecoded.symm.trans hdec)
    rcases skips_paddedCode ho with rfl | rfl | rfl | rfl <;> rfl
  exact ⟨hread, hcanonical, toBytes_of_isCanonical hread hcanonical⟩

end ClassFile

end ClassText
