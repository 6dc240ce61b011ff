import ClassText.Proofs.ClassFile.Codec

/-!
# Counts of lists

Every list in a class file follows its count, which has sixteen bits. Most lists are
refused if they are too long to be counted. But the handlers and the attributes of code, and its
lines and variables, are written behind a count that is cut to sixteen bits, whatever
their number is.

`IsHeldBy` says of a class and some bytes that the bytes hold the class, list by
list: a count, and as many items as the list has. What the count has to do with
that number is left open for the lists that are not refused. So the same predicate says
what always holds of the bytes to which a class is written (the counts are cut,
`IsCut`), and what should hold of them (the counts are exact, `IsExact`); and these
are the same exactly if no list is too long (`toBytes_lists`).
-/

namespace ClassText

open Bytes

/-! ## Lists -/

namespace Written

/-- The count is the number of items. -/
def IsExact (length : Nat) (count : UInt16) : Prop := count.toNat = length

/-- The count is what sixteen bits hold of the number of items. -/
def IsCut (length : Nat) (count : UInt16) : Prop := count.toNat = length % 65536

theorem isExact_ofNat {n : Nat} (h : n ≤ 65535) : IsExact n (.ofNat n) := by
  rw [IsExact, UInt16.toNat_ofNat']
  omega

theorem isCut_ofNat (n : Nat) : IsCut n (.ofNat n) := UInt16.toNat_ofNat'

theorem IsExact.le {n : Nat} {count : UInt16} (h : IsExact n count) : n ≤ 65535 := by
  have := count.toNat_lt
  rw [IsExact] at h
  omega

variable {α : Type} {counts : Nat → UInt16 → Prop} {item : α → Bytes → Prop} {write : α → Written}
  {items : List α} {bytes : Bytes}

/-- The bytes are a count and the items one after the other. -/
def Lists (counts : Nat → UInt16 → Prop) (item : α → Bytes → Prop) (items : List α)
    (bytes : Bytes) : Prop :=
  ∃ count parts, counts items.length count ∧ List.Forall₂ item items parts ∧
    bytes = word16 count ++ parts.flatten

theorem Lists.exists_count (h : Lists counts item items bytes) :
    ∃ count, counts items.length count :=
  let ⟨count, _, hcount, _⟩ := h
  ⟨count, hcount⟩

theorem Lists.length_le (h : Lists IsExact item items bytes) : items.length ≤ 65535 :=
  let ⟨_, hcount⟩ := h.exists_count
  hcount.le

theorem Lists.exists_part (h : Lists counts item items bytes) {a : α} (ha : a ∈ items) :
    ∃ part, item a part :=
  let ⟨_, _, _, hparts, _⟩ := h
  Success.exists_of_mem_right hparts.flip a ha

theorem forall₂_of_mem {R S : α → Bytes → Prop} {parts : List Bytes}
    (h : List.Forall₂ R items parts) (himp : ∀ a ∈ items, ∀ part, R a part → S a part) :
    List.Forall₂ S items parts :=
  ((List.forall₂_and_left items parts).mpr ⟨fun _ ha => ha, h⟩).imp fun a part ⟨ha, hr⟩ =>
    himp a ha part hr

theorem eq_of_ok {part : Bytes} (h : (.ok bytes : Written) = .ok part) : part = bytes :=
  (Except.ok.inj h).symm

theorem lists_of_truncated (h : truncated write items = .ok bytes)
    (hcount : counts items.length (.ofNat items.length))
    (hitem : ∀ a ∈ items, ∀ part, write a = .ok part → item a part) :
    Lists counts item items bytes := by
  obtain ⟨parts, hparts, rfl⟩ := truncated_eq_ok_iff.mp h
  exact ⟨_, parts, hcount, forall₂_of_mem hparts hitem, rfl⟩

theorem lists_of_counted (h : counted write items = .ok bytes)
    (hitem : ∀ a ∈ items, ∀ part, write a = .ok part → item a part) :
    Lists IsExact item items bytes := by
  obtain ⟨hle, parts, hparts, rfl⟩ := counted_eq_ok_iff.mp h
  exact ⟨_, parts, isExact_ofNat hle, forall₂_of_mem hparts hitem, rfl⟩

end Written

open Written

/-! ## What bytes hold -/

variable {counts : Nat → UInt16 → Prop}

/-- The bytes hold the difference. -/
def FrameDelta.IsHeldBy : FrameDelta PoolIndex UInt16 → Bytes → Prop
  | .full offset frame, bytes => ∃ locals stack : Bytes,
    Lists IsExact (fun t part => part = StoredType.write t) frame.locals locals ∧
    Lists IsExact (fun t part => part = StoredType.write t) frame.stack.reverse stack ∧
    bytes = 255 :: word16 offset ++ locals ++ stack
  | delta, bytes => FrameTable.writeDelta delta = .ok bytes

/-- The bytes hold what an attribute of code says. -/
def CodeAttributeBody.IsHeldBy (counts : Nat → UInt16 → Prop) (offsets : Array Nat) :
    CodeAttributeBody → Bytes → Prop
  | .lines entries, bytes =>
    Lists counts (fun e part => part = CodeAttribute.writeLine offsets e) entries bytes
  | .variables entries, bytes | .variableTypes entries, bytes =>
    Lists counts (fun e part => part = CodeAttribute.writeVariable offsets e) entries bytes
  | .frames table, bytes => Lists IsExact FrameDelta.IsHeldBy table bytes
  | .raw kept, bytes => bytes = kept

/-- The bytes hold the attribute. -/
def Attribute.IsHeldBy {β : Type} (body : β → Bytes → Prop) (a : Attribute β) (bytes : Bytes) :
    Prop :=
  ∃ content, body a.body content ∧ bytes = word16 a.name ++ Written.block content

/-- The bytes hold the code. -/
def Code.IsHeldBy (counts : Nat → UInt16 → Prop) (code : Code) (bytes : Bytes) : Prop :=
  ∃ (offsets : Array Nat) (insns handlers attributes : Bytes),
    code.assemble = .ok ⟨offsets, insns⟩ ∧
    Lists counts (fun h part => part = Handler.write offsets h) code.handlers handlers ∧
    Lists counts (Attribute.IsHeldBy (CodeAttributeBody.IsHeldBy counts offsets)) code.attributes
      attributes ∧
    bytes = word16 code.maxStack ++ word16 code.maxLocals ++ Written.block insns ++ handlers ++
      attributes

/-- The bytes hold the code, or are those that were kept. -/
def MethodAttributeBody.IsHeldBy (counts : Nat → UInt16 → Prop) :
    MethodAttributeBody → Bytes → Prop
  | .code c, bytes => c.IsHeldBy counts bytes
  | .raw kept, bytes => bytes = kept

/-- The bytes hold the member. -/
def Member.IsHeldBy {β : Type} (body : β → Bytes → Prop) (m : Member β) (bytes : Bytes) : Prop :=
  ∃ attributes, Lists IsExact (Attribute.IsHeldBy body) m.attributes attributes ∧
    bytes = word16 m.flags ++ word16 m.name ++ word16 m.descriptor ++ attributes

namespace ClassFile

/-- The parts of the class are held by these sections. -/
structure Sections.Hold (counts : Nat → UInt16 → Prop) (s : Sections) (c : ClassFile) : Prop where
  pool : c.pool.write = .ok s.pool
  interfaces : Lists IsExact (fun index part => part = word16 index) c.interfaces s.interfaces
  fields : Lists IsExact (Member.IsHeldBy fun kept part => part = kept) c.fields s.fields
  methods : Lists IsExact (Member.IsHeldBy (MethodAttributeBody.IsHeldBy counts)) c.methods
    s.methods
  attributes : Lists IsExact (Attribute.IsHeldBy fun kept part => part = kept) c.attributes
    s.attributes

/-- The bytes hold the class: each list behind a count, which is exact unless the list belongs to
code and is no part of a table of frames. -/
def IsHeldBy (counts : Nat → UInt16 → Prop) (c : ClassFile) (bytes : Bytes) : Prop :=
  ∃ s : Sections, s.Hold counts c ∧ bytes = magic ++ s.joined c

end ClassFile

/-! ## Lists of a class -/

/-- The code has a list of this length that is refused if it is too long. -/
inductive Code.HasCheckedList (code : Code) : Nat → Prop where
  | frames {name : PoolIndex} {table : FrameTable} (h : ⟨name, .frames table⟩ ∈ code.attributes) :
    HasCheckedList code table.length
  | locals {name : PoolIndex} {table : FrameTable} {offset : UInt16} {frame : StoredFrame}
    (h : ⟨name, .frames table⟩ ∈ code.attributes) (hfull : .full offset frame ∈ table) :
    HasCheckedList code frame.locals.length
  | stack {name : PoolIndex} {table : FrameTable} {offset : UInt16} {frame : StoredFrame}
    (h : ⟨name, .frames table⟩ ∈ code.attributes) (hfull : .full offset frame ∈ table) :
    HasCheckedList code frame.stack.length

/-- The code has a list of this length whose count is cut if it is too long. -/
inductive Code.HasCutList (code : Code) : Nat → Prop where
  | handlers : HasCutList code code.handlers.length
  | attributes : HasCutList code code.attributes.length
  | lineTable {name : PoolIndex} {entries : List SourceLine}
    (h : ⟨name, .lines entries⟩ ∈ code.attributes) : HasCutList code entries.length
  | variableTable {name : PoolIndex} {entries : List SourceVariable}
    (h : ⟨name, .variables entries⟩ ∈ code.attributes) : HasCutList code entries.length
  | variableTypeTable {name : PoolIndex} {entries : List SourceVariable}
    (h : ⟨name, .variableTypes entries⟩ ∈ code.attributes) : HasCutList code entries.length

namespace ClassFile

/-- The class has a list of this length that is refused if it is too long. -/
inductive HasCheckedList (c : ClassFile) : Nat → Prop where
  | interfaces : HasCheckedList c c.interfaces.length
  | fields : HasCheckedList c c.fields.length
  | methods : HasCheckedList c c.methods.length
  | attributes : HasCheckedList c c.attributes.length
  | fieldAttributes {field : Field} (h : field ∈ c.fields) :
    HasCheckedList c field.attributes.length
  | methodAttributes {method : Method} (h : method ∈ c.methods) :
    HasCheckedList c method.attributes.length
  | code {method : Method} {name : PoolIndex} {code : Code} {n : Nat} (hmethod : method ∈ c.methods)
    (hcode : ⟨name, .code code⟩ ∈ method.attributes) (h : code.HasCheckedList n) :
    HasCheckedList c n

/-- The class has a list of this length whose count is cut if it is too long. All of them belong to
code. -/
inductive HasCutList (c : ClassFile) : Nat → Prop where
  | code {method : Method} {name : PoolIndex} {code : Code} {n : Nat} (hmethod : method ∈ c.methods)
    (hcode : ⟨name, .code code⟩ ∈ method.attributes) (h : code.HasCutList n) : HasCutList c n

end ClassFile

/-! ## What is written -/

theorem FrameDelta.isHeldBy_of_write {delta : FrameDelta PoolIndex UInt16} {bytes : Bytes}
    (h : FrameTable.writeDelta delta = .ok bytes) : delta.IsHeldBy bytes := by
  cases delta with
  | full offset frame =>
    obtain ⟨locals, hlocals, h⟩ := Success.bind_eq_ok.mp h
    obtain ⟨stack, hstack, h⟩ := Success.bind_eq_ok.mp h
    exact ⟨locals, stack, lists_of_counted hlocals fun _ _ _ => eq_of_ok,
      lists_of_counted hstack fun _ _ _ => eq_of_ok, eq_of_ok h⟩
  | _ => exact h

theorem CodeAttributeBody.isHeldBy_of_write {offsets : Array Nat} {code : Code} {name : PoolIndex}
    {body : CodeAttributeBody} {bytes : Bytes} (ha : ⟨name, body⟩ ∈ code.attributes)
    (hcut : ∀ n, code.HasCutList n → counts n (.ofNat n))
    (h : CodeAttribute.writeBody offsets body = .ok bytes) :
    body.IsHeldBy counts offsets bytes := by
  match body with
  | .lines entries => exact lists_of_truncated h (hcut _ (.lineTable ha)) fun _ _ _ => eq_of_ok
  | .variables entries =>
    exact lists_of_truncated h (hcut _ (.variableTable ha)) fun _ _ _ => eq_of_ok
  | .variableTypes entries =>
    exact lists_of_truncated h (hcut _ (.variableTypeTable ha)) fun _ _ _ => eq_of_ok
  | .frames table => exact lists_of_counted h fun _ _ _ => FrameDelta.isHeldBy_of_write
  | .raw kept => exact eq_of_ok h

theorem Attribute.isHeldBy_of_write {β : Type} {write : β → Written} {body : β → Bytes → Prop}
    {a : Attribute β} {bytes : Bytes} (h : Attribute.write write a = .ok bytes)
    (hbody : ∀ content, write a.body = .ok content → body a.body content) :
    a.IsHeldBy body bytes := by
  obtain ⟨content, hcontent, rfl⟩ := Attribute.write_eq_ok_iff.mp h
  exact ⟨content, hbody content hcontent, rfl⟩

theorem Code.isHeldBy_of_write {code : Code} {bytes : Bytes}
    (hcut : ∀ n, code.HasCutList n → counts n (.ofNat n)) (h : code.write = .ok bytes) :
    code.IsHeldBy counts bytes := by
  obtain ⟨⟨offsets, insns⟩, hassemble, h⟩ := Success.bind_eq_ok.mp h
  obtain ⟨handlers, hhandlers, h⟩ := Success.bind_eq_ok.mp h
  obtain ⟨attributes, hattributes, h⟩ := Success.bind_eq_ok.mp h
  refine ⟨offsets, insns, handlers, attributes, Success.mapError_eq_ok.mp hassemble, ?_, ?_,
    eq_of_ok h⟩
  · exact lists_of_truncated hhandlers (hcut _ .handlers) fun _ _ _ => eq_of_ok
  · exact lists_of_truncated hattributes (hcut _ .attributes) fun a ha _ hpart =>
      Attribute.isHeldBy_of_write hpart fun _ => CodeAttributeBody.isHeldBy_of_write ha hcut

theorem Member.isHeldBy_of_write {β : Type} {write : β → Written} {body : β → Bytes → Prop}
    {m : Member β} {bytes : Bytes} (h : Member.write write m = .ok bytes)
    (hbody : ∀ a ∈ m.attributes, ∀ content, write a.body = .ok content → body a.body content) :
    m.IsHeldBy body bytes := by
  obtain ⟨attributes, hattributes, h⟩ := Success.bind_eq_ok.mp h
  exact ⟨attributes, lists_of_counted hattributes fun a ha _ hpart =>
    Attribute.isHeldBy_of_write hpart (hbody a ha), eq_of_ok h⟩

theorem MethodAttributeBody.isHeldBy_of_write {body : MethodAttributeBody} {bytes : Bytes}
    (hcut : ∀ code, body = .code code → ∀ n, code.HasCutList n → counts n (.ofNat n))
    (h : body.write = .ok bytes) : body.IsHeldBy counts bytes := by
  cases body with
  | code code => exact Code.isHeldBy_of_write (hcut code rfl) h
  | raw kept => exact eq_of_ok h

namespace ClassFile

variable {c : ClassFile} {bytes : Bytes}

/-- The bytes to which a class is written hold the class, with those counts that are written for the
lists that are not refused. -/
theorem isHeldBy_of_write (hcut : ∀ n, c.HasCutList n → counts n (.ofNat n))
    (h : c.write = .ok bytes) : c.IsHeldBy counts bytes := by
  obtain ⟨s, hs, rfl⟩ := write_eq_ok_iff.mp h
  refine ⟨s, ⟨hs.pool, ?_, ?_, ?_, ?_⟩, rfl⟩
  · exact lists_of_counted hs.interfaces fun _ _ _ => eq_of_ok
  · exact lists_of_counted hs.fields fun _ _ _ hpart =>
      Member.isHeldBy_of_write hpart fun _ _ _ => eq_of_ok
  · refine lists_of_counted hs.methods fun method hmethod _ hpart =>
      Member.isHeldBy_of_write hpart fun a ha _ => MethodAttributeBody.isHeldBy_of_write ?_
    rintro code hcode n hn
    exact hcut n (.code hmethod (by rwa [← hcode]) hn)
  · exact lists_of_counted hs.attributes fun _ _ _ hpart =>
      Attribute.isHeldBy_of_write hpart fun _ => eq_of_ok

end ClassFile

/-! ## What the counts say -/

theorem FrameDelta.IsHeldBy.length_le {offset : UInt16} {frame : StoredFrame} {bytes : Bytes}
    (h : (FrameDelta.full offset frame).IsHeldBy bytes) :
    frame.locals.length ≤ 65535 ∧ frame.stack.length ≤ 65535 := by
  obtain ⟨locals, stack, hlocals, hstack, -⟩ := h
  exact ⟨hlocals.length_le, by simpa using hstack.length_le⟩

namespace Code.IsHeldBy

variable {code : Code} {bytes : Bytes}

theorem exists_body (h : code.IsHeldBy counts bytes) {name : PoolIndex} {body : CodeAttributeBody}
    (ha : ⟨name, body⟩ ∈ code.attributes) :
    ∃ offsets content, body.IsHeldBy counts offsets content := by
  obtain ⟨offsets, insns, handlers, attributes, -, -, hattributes, -⟩ := h
  obtain ⟨part, content, hcontent, -⟩ := hattributes.exists_part ha
  exact ⟨offsets, content, hcontent⟩

theorem le_of_hasCheckedList (h : code.IsHeldBy counts bytes) {n : Nat}
    (hn : code.HasCheckedList n) : n ≤ 65535 := by
  cases hn with
  | frames ha =>
    obtain ⟨_, _, htable⟩ := h.exists_body ha
    exact Lists.length_le htable
  | locals ha hfull =>
    obtain ⟨_, _, htable⟩ := h.exists_body ha
    obtain ⟨_, hpart⟩ := Lists.exists_part htable hfull
    exact hpart.length_le.1
  | stack ha hfull =>
    obtain ⟨_, _, htable⟩ := h.exists_body ha
    obtain ⟨_, hpart⟩ := Lists.exists_part htable hfull
    exact hpart.length_le.2

theorem exists_count (h : code.IsHeldBy counts bytes) {n : Nat} (hn : code.HasCutList n) :
    ∃ count, counts n count := by
  cases hn with
  | handlers =>
    obtain ⟨_, _, _, _, -, hhandlers, -⟩ := h
    exact hhandlers.exists_count
  | attributes =>
    obtain ⟨_, _, _, _, -, -, hattributes, -⟩ := h
    exact hattributes.exists_count
  | lineTable ha | variableTable ha | variableTypeTable ha =>
    obtain ⟨_, _, hentries⟩ := h.exists_body ha
    exact Lists.exists_count hentries

end Code.IsHeldBy

namespace ClassFile

variable {c : ClassFile} {bytes : Bytes}

theorem IsHeldBy.exists_code (h : c.IsHeldBy counts bytes) {method : Method} {name : PoolIndex}
    {code : Code} (hmethod : method ∈ c.methods) (hcode : ⟨name, .code code⟩ ∈ method.attributes) :
    ∃ content, code.IsHeldBy counts content := by
  obtain ⟨s, hs, -⟩ := h
  obtain ⟨_, attributes, hattributes, -⟩ := hs.methods.exists_part hmethod
  obtain ⟨_, content, hcontent, -⟩ := hattributes.exists_part hcode
  exact ⟨content, hcontent⟩

theorem IsHeldBy.le_of_hasCheckedList (h : c.IsHeldBy counts bytes) {n : Nat}
    (hn : c.HasCheckedList n) : n ≤ 65535 := by
  have ⟨s, hs, _⟩ := h
  cases hn with
  | interfaces => exact hs.interfaces.length_le
  | fields => exact hs.fields.length_le
  | methods => exact hs.methods.length_le
  | attributes => exact hs.attributes.length_le
  | fieldAttributes hfield =>
    obtain ⟨_, _, hattributes, -⟩ := hs.fields.exists_part hfield
    exact hattributes.length_le
  | methodAttributes hmethod =>
    obtain ⟨_, _, hattributes, -⟩ := hs.methods.exists_part hmethod
    exact hattributes.length_le
  | code hmethod hcode hn =>
    obtain ⟨_, hcontent⟩ := h.exists_code hmethod hcode
    exact hcontent.le_of_hasCheckedList hn

theorem IsHeldBy.exists_count (h : c.IsHeldBy counts bytes) {n : Nat} (hn : c.HasCutList n) :
    ∃ count, counts n count := by
  obtain ⟨hmethod, hcode, hn⟩ := hn
  obtain ⟨_, hcontent⟩ := h.exists_code hmethod hcode
  exact hcontent.exists_count hn

/-- A class with a list that is too long to be counted is not written, unless the list is one whose
count is cut. What is written holds the class with counts that are exact for all other lists and
cut for these; so all counts are exact exactly if none of these lists is too long either. -/
theorem toBytes_lists (c : ClassFile) :
    (∀ n, c.HasCheckedList n → n ≤ 65535 ∨ ∃ fault, c.toBytes = .error (.write fault)) ∧
    ∀ bytes, c.toBytes = .ok bytes → c.IsHeldBy IsCut bytes ∧
      (c.IsHeldBy IsExact bytes ↔ ∀ n, c.HasCutList n → n ≤ 65535) := by
  constructor
  · intro n hn
    rw [toBytes]
    cases hwrite : c.write with
    | error fault => exact .inr ⟨fault, rfl⟩
    | ok bytes =>
      exact .inl ((isHeldBy_of_write (fun n _ => isCut_ofNat n) hwrite).le_of_hasCheckedList hn)
  · intro bytes h
    have hwrite : c.write = .ok bytes := Success.mapError_eq_ok.mp h
    refine ⟨isHeldBy_of_write (fun n _ => isCut_ofNat n) hwrite, fun hexact n hn => ?_, fun hle =>
      isHeldBy_of_write (fun n hn => isExact_ofNat (hle n hn)) hwrite⟩
    obtain ⟨count, hcount⟩ := hexact.exists_count hn
    exact hcount.le

/-! ## Code with too many attributes -/

/-- Code that does nothing, with these attributes. -/
def annotated (attributes : List CodeAttribute) : Code :=
  ⟨0, 0, #[.simple Opcode.returnVoid], #[0, 1], [], attributes⟩

/-- A class with one method, which has this code. -/
def holding (code : Code) : ClassFile where
  version := ⟨49, 0⟩
  pool := ⟨#[none, some (.utf8 "A"), some (.classRef 1), some (.utf8 "m"), some (.utf8 "()V"),
    some (.utf8 "Code"), some (.utf8 "X")], by decide⟩
  flags := 0
  thisClass := 2
  superClass := none
  interfaces := []
  fields := []
  methods := [⟨8, 3, 4, [⟨5, .code code⟩]⟩]
  attributes := []

theorem exists_write_annotated {attributes : List CodeAttribute}
    (h : ∀ a ∈ attributes, ∃ kept, a.body = .raw kept) :
    ∃ bytes, (annotated attributes).write = .ok bytes := by
  have hwrite : ∀ a ∈ attributes, ∃ part, CodeAttribute.write #[0, 1] a = .ok part := by
    intro a ha
    obtain ⟨kept, hkept⟩ := h a ha
    exact ⟨_, Attribute.write_eq_ok_iff.mpr ⟨kept, by rw [hkept]; rfl, rfl⟩⟩
  obtain ⟨parts, hparts⟩ := Success.exists_forall₂ hwrite
  exact ⟨_, Code.write_eq_ok_iff.mpr ⟨#[0, 1], [Opcode.returnVoid], parts, rfl, hparts, rfl⟩⟩

theorem counted_singleton {α : Type} {write : α → Written} {a : α} {part : Bytes}
    (h : write a = .ok part) : ∃ bytes, counted write [a] = .ok bytes :=
  ⟨_, counted_eq_ok_iff.mpr ⟨Nat.le_of_lt_succ (by simp), [part], .cons h .nil, rfl⟩⟩

/-- A class that has nothing but one method can be written, if the code of this can be. -/
theorem exists_toBytes_of_code {c : ClassFile} {flags : UInt16} {name descriptor index : PoolIndex}
    {code : Code} {pool part : Bytes} (hpool : c.pool.write = .ok pool)
    (hinterfaces : c.interfaces = []) (hfields : c.fields = []) (hattributes : c.attributes = [])
    (hmethods : c.methods = [⟨flags, name, descriptor, [⟨index, .code code⟩]⟩])
    (h : code.write = .ok part) : ∃ bytes, c.toBytes = .ok bytes := by
  have hattribute : Attribute.write MethodAttributeBody.write ⟨index, .code code⟩ = .ok _ :=
    Attribute.write_eq_ok_iff.mpr ⟨part, h, rfl⟩
  obtain ⟨attributes, hcode⟩ := counted_singleton hattribute
  have hmethod : Member.write MethodAttributeBody.write
      ⟨flags, name, descriptor, [⟨index, .code code⟩]⟩ = .ok _ :=
    Success.bind_eq_ok.mpr ⟨attributes, hcode, rfl⟩
  obtain ⟨methods, hmethod'⟩ := counted_singleton hmethod
  exact ⟨_, Success.mapError_eq_ok.mpr (write_eq_ok_iff.mpr ⟨⟨_, _, _, methods, _⟩,
    ⟨hpool, by rw [hinterfaces]; rfl, by rw [hfields]; rfl, by rw [hmethods]; exact hmethod',
      by rw [hattributes]; rfl⟩, rfl⟩)⟩

/-- The count of the attributes of code is cut: code with 65536 of them is written, and no exact
count can stand before them. -/
theorem toBytes_overcrowded :
    let c := holding (annotated (List.replicate 65536 ⟨6, .raw []⟩))
    ∃ bytes, c.toBytes = .ok bytes ∧ ¬c.IsHeldBy IsExact bytes := by
  intro c
  have hraw : ∀ a ∈ List.replicate 65536 (⟨6, .raw []⟩ : CodeAttribute), ∃ kept,
      a.body = .raw kept :=
    fun a ha => ⟨[], by rw [List.eq_of_mem_replicate ha]⟩
  obtain ⟨part, hpart⟩ := exists_write_annotated hraw
  obtain ⟨bytes, hbytes⟩ := exists_toBytes_of_code (c := c) rfl rfl rfl rfl rfl hpart
  refine ⟨bytes, hbytes, fun hexact => ?_⟩
  have hlist : c.HasCutList 65536 := by
    have := HasCutList.code (c := c) List.mem_cons_self List.mem_cons_self .attributes
    rwa [annotated, List.length_replicate] at this
  obtain ⟨count, hcount⟩ := hexact.exists_count hlist
  exact absurd hcount.le (by decide)

end ClassFile

end ClassText
