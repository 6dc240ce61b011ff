import ClassText.Proofs.ClassFile.Member
import ClassText.Proofs.ConstantPool.Codec

/-!
# Class files are read as they are written

A class can be read when its parts can: its pool is a row of constants, its
indices of classes are indices of classes, and the attributes of its methods
belong to their names. Such a class, once it is written, is read as `reread`
says (`ofBytes_of_toBytes`): the code of a method has the labels of its layout
and its tables of frames as bytes, and all the rest is as it was.

A class that was read can be read again, can be written, and has nothing for
`reread` to change (`toBytes_of_ofBytes`). Together this is the round trip of
class files.
-/

namespace ClassText.ClassFile

open ByteReader Bytes

variable {used bytes : Bytes} {c : ClassFile} {pool : ConstantPool}

/-- Is there a class at the index? -/
def IsClass (pool : ConstantPool) (index : PoolIndex) : Prop :=
  ∃ name, pool.get? index = some (.classRef name)

/-- Can everything in the class be read, once it is written? -/
structure IsReadable (c : ClassFile) : Prop where
  pool : c.pool.IsReadable
  thisClass : IsClass c.pool c.thisClass
  superClass : ∀ index, c.superClass = some index → index ≠ 0 ∧ IsClass c.pool index
  interfaces : ∀ index ∈ c.interfaces, IsClass c.pool index
  fields : ∀ field ∈ c.fields, ∀ a ∈ field.attributes, a.RawFits
  methods : ∀ method ∈ c.methods, ∀ a ∈ method.attributes, MethodAttribute.IsReadable c.pool a
  attributes : ∀ a ∈ c.attributes, a.RawFits

/-- Does every attribute of code fit, when it is written? Its length has thirty-two bits. -/
def CodesFit (c : ClassFile) : Prop :=
  ∀ method ∈ c.methods, ∀ a ∈ method.attributes, MethodAttribute.CodeFits a

/-- What comes back of a class that is written and read. -/
def reread (c : ClassFile) : ClassFile :=
  { c with methods := c.methods.map (Member.mapBodies MethodAttributeBody.reread) }

/-! ## Indices of classes -/

theorem checked_eq_ok_iff {place : ClassPlace} {index result : PoolIndex} :
    checked pool place index = .ok result ↔ IsClass pool index ∧ index = result := by
  unfold checked IsClass
  split <;> simp_all

theorem checkedSuper_eq_ok_iff {index : PoolIndex} {result : Option PoolIndex} :
    checkedSuper pool index = .ok result ↔
      (∀ i, result = some i → i ≠ 0 ∧ IsClass pool i) ∧ index = result.getD 0 := by
  unfold checkedSuper
  by_cases hzero : index = 0
  · rw [if_pos hzero]
    constructor
    · intro h
      cases h
      exact ⟨fun i hi => (nomatch hi), hzero⟩
    · rintro ⟨hall, heq⟩
      cases result with
      | none => rfl
      | some i => exact ((hall i rfl).1 (heq.symm.trans hzero)).elim
  · rw [if_neg hzero, Success.map_eq_ok]
    constructor
    · rintro ⟨i, hi, rfl⟩
      obtain ⟨hclass, rfl⟩ := checked_eq_ok_iff.mp hi
      refine ⟨?_, rfl⟩
      rintro _ ⟨⟩
      exact ⟨hzero, hclass⟩
    · rintro ⟨hall, heq⟩
      cases result with
      | none => exact (hzero heq).elim
      | some i => exact ⟨i, checked_eq_ok_iff.mpr ⟨heq ▸ (hall i rfl).2, heq⟩, rfl⟩

theorem interfaces_eq_ok_iff {indices result : List PoolIndex} :
    indices.mapM (checked pool .interface) = .ok result ↔
      (∀ index ∈ indices, IsClass pool index) ∧ indices = result := by
  rw [Success.mapM_eq_ok, ← List.forall₂_eq_eq_eq, ← List.forall₂_and_left]
  exact ⟨fun h => h.imp fun _ _ h => checked_eq_ok_iff.mp h,
    fun h => h.imp fun _ _ h => checked_eq_ok_iff.mpr h⟩

theorem takes_counted_word16 {indices : List PoolIndex}
    (h : Written.counted (fun index => .ok (word16 index)) indices = .ok used) :
    (counted ByteReader.word16).Takes used indices := by
  obtain ⟨hle, parts, hparts, rfl⟩ := Written.counted_eq_ok_iff.mp h
  exact takes_counted.mpr
    ⟨parts, (hparts.imp fun _ _ h => takes_word16.mpr (Except.ok.inj h).symm).flip, hle, rfl⟩

theorem write_counted_word16 {indices : List PoolIndex}
    (h : (counted ByteReader.word16).Takes used indices) :
    Written.counted (fun index => .ok (word16 index)) indices = .ok used := by
  obtain ⟨parts, hparts, hle, rfl⟩ := takes_counted.mp h
  exact Written.counted_eq_ok_iff.mpr
    ⟨hle, parts, (hparts.imp fun _ _ h => congrArg Except.ok (takes_word16.mp h).symm).flip, rfl⟩

/-! ## Sections -/

/-- The bytes of those parts of a class that have no fixed length. -/
structure Sections where
  pool : Bytes
  interfaces : Bytes
  fields : Bytes
  methods : Bytes
  attributes : Bytes

/-- All bytes of the class but for those with which every class file begins. -/
def Sections.joined (s : Sections) (c : ClassFile) : Bytes :=
  word16 c.version.minor ++ (word16 c.version.major ++ (s.pool ++
    (word16 c.flags ++ (word16 c.thisClass ++ (word16 (c.superClass.getD 0) ++
      (s.interfaces ++ (s.fields ++ (s.methods ++ s.attributes))))))))

/-- The parts of the class are written to these sections. -/
structure Sections.AreWritten (s : Sections) (c : ClassFile) : Prop where
  pool : c.pool.write = .ok s.pool
  interfaces : Written.counted (fun index => .ok (word16 index)) c.interfaces = .ok s.interfaces
  fields : Written.counted (Member.write .ok) c.fields = .ok s.fields
  methods : Written.counted (Member.write MethodAttributeBody.write) c.methods = .ok s.methods
  attributes : Written.counted (Attribute.write .ok) c.attributes = .ok s.attributes

/-- The parts of the class are read from these sections. -/
structure Sections.AreRead (s : Sections) (c : ClassFile) : Prop where
  pool : ConstantPool.read.Takes s.pool c.pool
  thisClass : IsClass c.pool c.thisClass
  superClass : ∀ index, c.superClass = some index → index ≠ 0 ∧ IsClass c.pool index
  interfaceClasses : ∀ index ∈ c.interfaces, IsClass c.pool index
  interfaces : (counted ByteReader.word16).Takes s.interfaces c.interfaces
  fields : (counted (Member.read rawBody)).Takes s.fields c.fields
  methods : (counted (Member.read (MethodAttributeBody.ofBytes c.pool))).Takes s.methods c.methods
  attributes : (counted (Attribute.read rawBody)).Takes s.attributes c.attributes

theorem write_eq_ok_iff :
    c.write = .ok bytes ↔ ∃ s : Sections, s.AreWritten c ∧ bytes = magic ++ s.joined c := by
  rw [write, Success.bind_eq_ok]
  constructor
  · rintro ⟨pool, hpool, h⟩
    obtain ⟨interfaces, hinterfaces, h⟩ := Success.bind_eq_ok.mp h
    obtain ⟨fields, hfields, h⟩ := Success.bind_eq_ok.mp h
    obtain ⟨methods, hmethods, h⟩ := Success.bind_eq_ok.mp h
    obtain ⟨attributes, hattributes, h⟩ := Success.bind_eq_ok.mp h
    refine ⟨⟨pool, interfaces, fields, methods, attributes⟩,
      ⟨hpool, hinterfaces, hfields, hmethods, hattributes⟩, ?_⟩
    rw [← Except.ok.inj h]
    simp only [Sections.joined, List.append_assoc]
  · rintro ⟨s, ⟨hpool, hinterfaces, hfields, hmethods, hattributes⟩, rfl⟩
    refine ⟨s.pool, hpool, ?_⟩
    rw [hinterfaces, hfields, hmethods, hattributes]
    simp only [Sections.joined, List.append_assoc]
    rfl

theorem takes_readBody :
    readBody.Takes used c ↔ ∃ s : Sections, s.AreRead c ∧ used = s.joined c := by
  constructor
  · intro h₀
    obtain ⟨_, _, minor, rfl, hminor, h₁⟩ := takes_bind.mp h₀
    obtain ⟨_, _, major, rfl, hmajor, h₂⟩ := takes_bind.mp h₁
    obtain ⟨_, _, pool, rfl, hpool, h₃⟩ := takes_bind.mp h₂
    obtain ⟨_, _, flags, rfl, hflags, h₄⟩ := takes_bind.mp h₃
    obtain ⟨_, _, thisIndex, rfl, hthisIndex, h₅⟩ := takes_bind.mp h₄
    obtain ⟨_, _, thisClass, rfl, hthis, h₆⟩ := takes_bind.mp h₅
    obtain ⟨_, _, superIndex, rfl, hsuperIndex, h₇⟩ := takes_bind.mp h₆
    obtain ⟨_, _, superClass, rfl, hsuper, h₈⟩ := takes_bind.mp h₇
    obtain ⟨_, _, indices, rfl, hindices, h₉⟩ := takes_bind.mp h₈
    obtain ⟨_, _, interfaces, rfl, hinterfaces, h₁₀⟩ := takes_bind.mp h₉
    obtain ⟨_, _, fields, rfl, hfields, h₁₁⟩ := takes_bind.mp h₁₀
    obtain ⟨_, _, methods, rfl, hmethods, h₁₂⟩ := takes_bind.mp h₁₁
    obtain ⟨attributes, hattributes, rfl⟩ := takes_map.mp h₁₂
    obtain ⟨rfl, hthisOk⟩ := takes_ofExcept.mp hthis
    obtain ⟨rfl, hsuperOk⟩ := takes_ofExcept.mp hsuper
    obtain ⟨rfl, hinterfacesOk⟩ := takes_ofExcept.mp hinterfaces
    obtain ⟨hthisClass, rfl⟩ := checked_eq_ok_iff.mp hthisOk
    obtain ⟨hsuperClass, rfl⟩ := checkedSuper_eq_ok_iff.mp hsuperOk
    obtain ⟨hinterfaceClasses, rfl⟩ := interfaces_eq_ok_iff.mp hinterfacesOk
    refine ⟨⟨_, _, _, _, _⟩, ⟨hpool, hthisClass, hsuperClass, hinterfaceClasses, hindices, hfields,
      hmethods, hattributes⟩, ?_⟩
    rw [takes_word16.mp hminor, takes_word16.mp hmajor, takes_word16.mp hflags,
      takes_word16.mp hthisIndex, takes_word16.mp hsuperIndex]
    rfl
  · rintro ⟨s, h, rfl⟩
    refine Takes.bind (takes_word16.mpr rfl) (Takes.bind (takes_word16.mpr rfl) ?_)
    refine h.pool.bind ?_
    refine Takes.bind (takes_word16.mpr rfl) (Takes.bind (takes_word16.mpr rfl) ?_)
    refine takes_ofExcept_bind (checked_eq_ok_iff.mpr ⟨h.thisClass, rfl⟩) ?_
    refine Takes.bind (takes_word16.mpr rfl) ?_
    refine takes_ofExcept_bind (checkedSuper_eq_ok_iff.mpr ⟨h.superClass, rfl⟩) ?_
    refine h.interfaces.bind ?_
    refine takes_ofExcept_bind (interfaces_eq_ok_iff.mpr ⟨h.interfaceClasses, rfl⟩) ?_
    exact h.fields.bind (h.methods.bind (takes_map.mpr ⟨_, h.attributes, rfl⟩))

theorem ofBytes_eq_ok_iff :
    ofBytes bytes = .ok c ↔ ∃ body, bytes = magic ++ body ∧ readBody.Takes body c := by
  unfold ofBytes
  constructor
  · intro h
    split at h
    · next hprefix =>
      obtain ⟨body, rfl⟩ := hprefix
      rw [List.drop_left] at h
      split at h
      · cases h
      · next found hrun =>
        cases h
        exact ⟨body, rfl, takes_iff_run.mpr hrun⟩
      · cases h
    · cases h
  · rintro ⟨body, rfl, h⟩
    rw [if_pos (List.prefix_append _ _), List.drop_left, takes_iff_run.mp h]

/-! ## What is written is read -/

/-- A class that was written is read as it should come back. -/
theorem ofBytes_of_toBytes (hread : c.IsReadable) (hfits : c.CodesFit)
    (h : c.toBytes = .ok bytes) : ofBytes bytes = .ok c.reread := by
  obtain ⟨s, hs, rfl⟩ := write_eq_ok_iff.mp (Success.mapError_eq_ok.mp h)
  have hfields := Member.takes_counted_of_write hs.fields fun field hfield a ha =>
    (hread.fields field hfield a ha).comesBack
  have hmethods := Member.takes_counted_of_write hs.methods fun method hmethod a ha =>
    MethodAttribute.comesBack (hread.methods method hmethod a ha) (hfits method hmethod a ha)
  have hattributes := Attribute.takes_of_write hs.attributes fun a ha =>
    (hread.attributes a ha).comesBack
  rw [Member.map_mapBodies_eq_self fun _ _ _ _ => rfl] at hfields
  rw [Attribute.map_mapBody_eq_self fun _ _ => rfl] at hattributes
  exact ofBytes_eq_ok_iff.mpr ⟨_, rfl, takes_readBody.mpr ⟨s, {
    pool := ConstantPool.takes_of_write hread.pool hs.pool
    thisClass := hread.thisClass
    superClass := hread.superClass
    interfaceClasses := hread.interfaces
    interfaces := takes_counted_word16 hs.interfaces
    fields := hfields
    methods := hmethods
    attributes := hattributes }, rfl⟩⟩

/-! ## What is read can be written -/

/-- A class that was read can be read again, comes back as it was, and can be written. -/
theorem toBytes_of_ofBytes (h : ofBytes bytes = .ok c) :
    c.IsReadable ∧ c.CodesFit ∧ c.reread = c ∧ ∃ bytes', c.toBytes = .ok bytes' := by
  obtain ⟨body, rfl, hbody⟩ := ofBytes_eq_ok_iff.mp h
  obtain ⟨s, hs, rfl⟩ := takes_readBody.mp hbody
  obtain ⟨hpool, poolBytes, hpoolBytes⟩ := ConstantPool.write_of_takes hs.pool
  obtain ⟨hfields, fieldBytes, hfieldBytes⟩ :=
    Member.write_counted_of_takes hs.fields rawBody_spec
  obtain ⟨hmethods, methodBytes, hmethodBytes⟩ :=
    Member.write_counted_of_takes hs.methods MethodAttribute.ofBytes_spec
  obtain ⟨hattributes, attributeBytes, hattributeBytes⟩ :=
    Attribute.write_of_takes hs.attributes rawBody_spec
  refine ⟨⟨hpool, hs.thisClass, hs.superClass, hs.interfaceClasses, hfields,
    fun method hmethod a ha => (hmethods method hmethod a ha).1, hattributes⟩,
    fun method hmethod a ha => (hmethods method hmethod a ha).2.1, ?_, _,
    Success.mapError_eq_ok.mpr (write_eq_ok_iff.mpr ⟨⟨_, _, _, _, _⟩,
      ⟨hpoolBytes, write_counted_word16 hs.interfaces, hfieldBytes, hmethodBytes,
        hattributeBytes⟩, rfl⟩)⟩
  have hmap : c.methods.map (Member.mapBodies MethodAttributeBody.reread) = c.methods :=
    Member.map_mapBodies_eq_self fun method hmethod a ha => (hmethods method hmethod a ha).2.2
  rw [reread, hmap]

theorem codesFit_of_reread (h : c.reread.CodesFit) : c.CodesFit := by
  intro method hmethod a ha code hcode bytes hwrite
  refine h _ (List.mem_map_of_mem hmethod) _ (List.mem_map_of_mem ha) code.reread ?_ bytes ?_
  · rw [Attribute.mapBody, hcode]
    rfl
  · rw [Code.write_reread, hwrite]

/-- A class that was written comes back exactly if its code fits. -/
theorem ofBytes_toBytes_iff (hread : c.IsReadable) (h : c.toBytes = .ok bytes) :
    ofBytes bytes = .ok c.reread ↔ c.CodesFit :=
  ⟨fun hagain => codesFit_of_reread (toBytes_of_ofBytes hagain).2.1,
    fun hfits => ofBytes_of_toBytes hread hfits h⟩

/-- A class file that was read can be written, is read again from what was written, and is then
written to the same bytes. -/
theorem ofBytes_roundTrip (h : ofBytes bytes = .ok c) :
    ∃ bytes', c.toBytes = .ok bytes' ∧ ofBytes bytes' = .ok c ∧
      (ofBytes bytes' >>= toBytes) = .ok bytes' := by
  obtain ⟨hread, hfits, hreread, bytes', hbytes'⟩ := toBytes_of_ofBytes h
  have hagain : ofBytes bytes' = .ok c := hreread ▸ ofBytes_of_toBytes hread hfits hbytes'
  exact ⟨bytes', hbytes', hagain, Success.bind_eq_ok.mpr ⟨c, hagain, hbytes'⟩⟩

/-- A class whose method loads a string. Its name is spelled with one byte too many. -/
def loadingBytes : Bytes :=
  [202, 254, 186, 190, 0, 0, 0, 49, 0, 9, 1, 0, 2, 193, 129, 7, 0, 1, 1, 0, 1, 109, 1, 0, 3, 40, 41,
    86, 1, 0, 4, 67, 111, 100, 101, 1, 0, 1, 97, 8, 0, 6, 1, 0, 15, 76, 105, 110, 101, 78, 117, 109,
    98, 101, 114, 84, 97, 98, 108, 101, 0, 0, 0, 2, 0, 0, 0, 0, 0, 0, 0, 1, 0, 0, 0, 3, 0, 4, 0, 1,
    0, 5, 0, 0, 0, 28, 0, 1, 0, 0, 0, 0, 0, 4, 18, 7, 87, 177, 0, 0, 0, 1, 0, 8, 0, 0, 0, 6, 0, 1,
    0, 0, 0, 7, 0, 0]

/-- What stands in these bytes. -/
def loadingClass : ClassFile where
  version := ⟨49, 0⟩
  pool := ⟨#[none, some (.utf8 "A"), some (.classRef 1), some (.utf8 "m"), some (.utf8 "()V"),
    some (.utf8 "Code"), some (.utf8 "a"), some (.string 6), some (.utf8 "LineNumberTable")],
    by decide⟩
  flags := 0
  thisClass := 2
  superClass := none
  interfaces := []
  fields := []
  methods := [⟨0, 3, 4, [⟨5, .code ⟨1, 0, #[.loadConstant 7 false, .simple Opcode.pop,
    .simple Opcode.returnVoid], #[0, 2, 3, 4], [], [⟨8, .lines [⟨0, 7⟩]⟩]⟩⟩]⟩]
  attributes := []

theorem ofBytes_loadingBytes : ofBytes loadingBytes = .ok loadingClass :=
  Success.toOption_eq_some.mp (by decide +kernel)

theorem ofBytes_roundTrip_loadingBytes :
    ofBytes loadingBytes = .ok loadingClass ∧
      ∃ bytes', loadingClass.toBytes = .ok bytes' ∧ ofBytes bytes' = .ok loadingClass := by
  obtain ⟨bytes', hwrite, hread, -⟩ := ofBytes_roundTrip ofBytes_loadingBytes
  exact ⟨ofBytes_loadingBytes, bytes', hwrite, hread⟩

end ClassText.ClassFile
