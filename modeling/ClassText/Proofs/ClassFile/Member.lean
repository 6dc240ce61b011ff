import ClassText.ClassFile.Codec
import ClassText.Proofs.Code.Codec

/-!
# Members are read as they are written

Classes, fields and methods carry attributes, and differ only in what they make
of the bytes of an attribute. So lists of attributes, and members with them, are
dealt with once, for bodies that are read as they are written. Attributes of
methods are such bodies: code, or bytes that are kept.
-/

namespace ClassText

open ByteReader Bytes

variable {used bytes : Bytes} {pool : ConstantPool}

section Bodies

variable {β : Type} {body : PoolIndex → Bytes → Except ClassError β} {write : β → Written}
  {reread : β → β} {P : Attribute β → Prop}

namespace Attribute

/-- The attribute with another body. -/
def mapBody (f : β → β) (a : Attribute β) : Attribute β := ⟨a.name, f a.body⟩

/-- What is written of the body is read as it should come back, and its length fits. -/
def ComesBack (body : PoolIndex → Bytes → Except ClassError β) (write : β → Written)
    (reread : β → β) (a : Attribute β) : Prop :=
  ∀ bytes, write a.body = .ok bytes →
    bytes.length < 2 ^ 32 ∧ body a.name bytes = .ok (reread a.body)

theorem mapBody_eq_self {f : β → β} {a : Attribute β} (h : f a.body = a.body) :
    a.mapBody f = a := by
  rw [mapBody, h]

theorem map_mapBody_eq_self {f : β → β} {attributes : List (Attribute β)}
    (h : ∀ a ∈ attributes, f a.body = a.body) : attributes.map (mapBody f) = attributes := by
  rw [List.map_congr_left fun a ha => mapBody_eq_self (h a ha), List.map_id']

theorem ComesBack.takes {a : Attribute β} (hback : a.ComesBack body write reread)
    (h : Attribute.write write a = .ok used) :
    (Attribute.read body).Takes used (a.mapBody reread) := by
  obtain ⟨bytes, hbytes, rfl⟩ := Attribute.write_eq_ok_iff.mp h
  obtain ⟨hlen, hbody⟩ := hback bytes hbytes
  exact Attribute.takes_read.mpr ⟨bytes, hlen, hbody, rfl⟩

theorem takes_of_write {attributes : List (Attribute β)}
    (h : Written.counted (Attribute.write write) attributes = .ok used)
    (hback : ∀ a ∈ attributes, a.ComesBack body write reread) :
    (counted (Attribute.read body)).Takes used (attributes.map (mapBody reread)) := by
  obtain ⟨hle, parts, hparts, rfl⟩ := Written.counted_eq_ok_iff.mp h
  exact takes_counted_of_parts hparts hle fun a ha _ _ hwrite => (hback a ha).takes hwrite

theorem write_of_takes {attributes : List (Attribute β)}
    (h : (counted (Attribute.read body)).Takes used attributes)
    (hwrite : ∀ a bytes, bytes.length < 2 ^ 32 → body a.name bytes = .ok a.body →
      P a ∧ ∃ bytes', write a.body = .ok bytes') :
    (∀ a ∈ attributes, P a) ∧
      ∃ bytes, Written.counted (Attribute.write write) attributes = .ok bytes := by
  obtain ⟨parts, hparts, hle, rfl⟩ := takes_counted.mp h
  have hall : ∀ a ∈ attributes, P a ∧ ∃ part, Attribute.write write a = .ok part := by
    intro a ha
    obtain ⟨part, hpart⟩ := Success.exists_of_mem_right hparts a ha
    obtain ⟨bytes, hlen, hbody, -⟩ := Attribute.takes_read.mp hpart
    obtain ⟨hp, bytes', hbytes'⟩ := hwrite a bytes hlen hbody
    exact ⟨hp, _, Attribute.write_eq_ok_iff.mpr ⟨bytes', hbytes', rfl⟩⟩
  obtain ⟨parts', hparts'⟩ := Success.exists_forall₂ fun a ha => (hall a ha).2
  exact ⟨fun a ha => (hall a ha).1, _, Written.counted_eq_ok_iff.mpr ⟨hle, parts', hparts', rfl⟩⟩

end Attribute

namespace Member

variable {m : Member β}

/-- The member with other bodies of attributes. -/
def mapBodies (f : β → β) (m : Member β) : Member β :=
  { m with attributes := m.attributes.map (Attribute.mapBody f) }

theorem map_mapBodies_eq_self {f : β → β} {members : List (Member β)}
    (h : ∀ m ∈ members, ∀ a ∈ m.attributes, f a.body = a.body) :
    members.map (mapBodies f) = members := by
  have hall : ∀ m ∈ members, mapBodies f m = m := fun m hm => by
    rw [mapBodies, Attribute.map_mapBody_eq_self (h m hm)]
  rw [List.map_congr_left hall, List.map_id']

theorem takes_of_write (h : Member.write write m = .ok used)
    (hback : ∀ a ∈ m.attributes, a.ComesBack body write reread) :
    (Member.read body).Takes used (m.mapBodies reread) := by
  obtain ⟨attributes, hattributes, h⟩ := Success.bind_eq_ok.mp h
  cases h
  simp only [List.append_assoc]
  exact Takes.bind (takes_word16.mpr rfl) (Takes.bind (takes_word16.mpr rfl)
    (Takes.bind (takes_word16.mpr rfl)
      (takes_map.mpr ⟨_, Attribute.takes_of_write hattributes hback, rfl⟩)))

theorem write_of_takes (h : (Member.read body).Takes used m)
    (hwrite : ∀ a bytes, bytes.length < 2 ^ 32 → body a.name bytes = .ok a.body →
      P a ∧ ∃ bytes', write a.body = .ok bytes') :
    (∀ a ∈ m.attributes, P a) ∧ ∃ bytes, Member.write write m = .ok bytes := by
  obtain ⟨_, _, flags, rfl, -, h₁⟩ := takes_bind.mp h
  obtain ⟨_, _, name, rfl, -, h₂⟩ := takes_bind.mp h₁
  obtain ⟨_, _, descriptor, rfl, -, h₃⟩ := takes_bind.mp h₂
  obtain ⟨attributes, hattributes, rfl⟩ := takes_map.mp h₃
  obtain ⟨hall, bytes, hbytes⟩ := Attribute.write_of_takes hattributes hwrite
  exact ⟨hall, _, Success.bind_eq_ok.mpr ⟨bytes, hbytes, rfl⟩⟩

/-- Members one after the other are read as they are written, if their bodies are. -/
theorem takes_counted_of_write {members : List (Member β)}
    (h : Written.counted (Member.write write) members = .ok used)
    (hback : ∀ m ∈ members, ∀ a ∈ m.attributes, a.ComesBack body write reread) :
    (counted (Member.read body)).Takes used (members.map (mapBodies reread)) := by
  obtain ⟨hle, parts, hparts, rfl⟩ := Written.counted_eq_ok_iff.mp h
  exact takes_counted_of_parts hparts hle fun m hm _ _ hwrite =>
    takes_of_write hwrite (hback m hm)

theorem write_counted_of_takes {members : List (Member β)}
    (h : (counted (Member.read body)).Takes used members)
    (hwrite : ∀ a bytes, bytes.length < 2 ^ 32 → body a.name bytes = .ok a.body →
      P a ∧ ∃ bytes', write a.body = .ok bytes') :
    (∀ m ∈ members, ∀ a ∈ m.attributes, P a) ∧
      ∃ bytes, Written.counted (Member.write write) members = .ok bytes := by
  obtain ⟨parts, hparts, hle, rfl⟩ := takes_counted.mp h
  have hall : ∀ m ∈ members, (∀ a ∈ m.attributes, P a) ∧
      ∃ part, Member.write write m = .ok part := by
    intro m hm
    obtain ⟨part, hpart⟩ := Success.exists_of_mem_right hparts m hm
    exact write_of_takes hpart hwrite
  obtain ⟨parts', hparts'⟩ := Success.exists_forall₂ fun m hm => (hall m hm).2
  exact ⟨fun m hm => (hall m hm).1, _, Written.counted_eq_ok_iff.mpr ⟨hle, parts', hparts', rfl⟩⟩

end Member

end Bodies

/-! ## Bodies that are kept -/

/-- Does the length of the bytes fit? -/
def Attribute.RawFits (a : Attribute Bytes) : Prop := a.body.length < 2 ^ 32

theorem Attribute.RawFits.comesBack {a : Attribute Bytes} (h : a.RawFits) :
    a.ComesBack rawBody .ok id := by
  rintro bytes hbytes
  cases hbytes
  exact ⟨h, rfl⟩

theorem rawBody_spec (a : Attribute Bytes) (bytes : Bytes) (hlen : bytes.length < 2 ^ 32)
    (h : rawBody a.name bytes = .ok a.body) :
    a.RawFits ∧ ∃ bytes', (.ok a.body : Written) = .ok bytes' := by
  cases h
  exact ⟨hlen, _, rfl⟩

/-! ## Attributes of methods -/

/-- What comes back of a body that is written and read. -/
def MethodAttributeBody.reread : MethodAttributeBody → MethodAttributeBody
  | code c => code c.reread
  | raw bytes => raw bytes

namespace MethodAttribute

variable {a : Attribute MethodAttributeBody}

/-- Does a body belong under this name? -/
def HasBody (pool : ConstantPool) (name : String) : MethodAttributeBody → Prop
  | .code c => name = Code.attributeName ∧ c.IsReadable pool
  | .raw bytes => name ≠ Code.attributeName ∧ bytes.length < 2 ^ 32

/-- Is there a name for the attribute, and does its body belong to it? -/
def IsReadable (pool : ConstantPool) (a : Attribute MethodAttributeBody) : Prop :=
  ∃ name, pool.text a.name = .ok name ∧ HasBody pool name a.body

/-- Does the length of the code fit, when it is written? -/
def CodeFits (a : Attribute MethodAttributeBody) : Prop :=
  ∀ code, a.body = .code code → ∀ bytes, code.write = .ok bytes → bytes.length < 2 ^ 32

theorem codeOfBytes_eq_ok_iff {code : Code} :
    Code.ofBytes pool bytes = .ok code ↔ (Code.read pool).Takes bytes code := by
  rw [takes_iff_run, Code.ofBytes, Success.bind_eq_ok]
  constructor
  · rintro ⟨⟨read, rest⟩, hrun, h⟩
    match rest with
    | [] =>
      cases h
      exact hrun
  · intro h
    exact ⟨_, h, rfl⟩

/-- An attribute of a method comes back when it is written and read. -/
theorem comesBack (hread : IsReadable pool a) (hfits : CodeFits a) :
    a.ComesBack (MethodAttributeBody.ofBytes pool) MethodAttributeBody.write
      MethodAttributeBody.reread := by
  obtain ⟨name, hname, hbody⟩ := hread
  intro bytes hwrite
  cases hcase : a.body with
  | code code =>
    rw [hcase] at hbody hwrite
    obtain ⟨rfl, hcode⟩ := hbody
    have hlen := hfits code hcase bytes hwrite
    refine ⟨hlen, Success.bind_eq_ok.mpr ⟨_, hname, ?_⟩⟩
    rw [if_pos rfl]
    exact Success.bind_eq_ok.mpr
      ⟨_, codeOfBytes_eq_ok_iff.mpr (Code.takes_of_write hcode hwrite hlen), rfl⟩
  | raw kept =>
    rw [hcase] at hbody hwrite
    cases hwrite
    refine ⟨hbody.2, Success.bind_eq_ok.mpr ⟨_, hname, ?_⟩⟩
    rw [if_neg hbody.1]
    rfl

/-- An attribute of a method that was read can be read again, and is written. -/
theorem ofBytes_spec (a : Attribute MethodAttributeBody) (bytes : Bytes)
    (hlen : bytes.length < 2 ^ 32)
    (h : MethodAttributeBody.ofBytes pool a.name bytes = .ok a.body) :
    (IsReadable pool a ∧ CodeFits a ∧ a.body.reread = a.body) ∧
      ∃ bytes', a.body.write = .ok bytes' := by
  obtain ⟨i, body⟩ := a
  obtain ⟨name, hname, h⟩ := Success.bind_eq_ok.mp h
  split at h
  · next hcode =>
    obtain ⟨code, hcodeBytes, h⟩ := Success.bind_eq_ok.mp h
    cases h
    have htakes := codeOfBytes_eq_ok_iff.mp hcodeBytes
    obtain ⟨hread, hreread⟩ := Code.isReadable_of_takes htakes
    obtain ⟨bytes', hwrite, hlen'⟩ := Code.write_of_takes htakes
    refine ⟨⟨⟨name, hname, hcode, hread⟩, ?_, congrArg MethodAttributeBody.code hreread⟩,
      bytes', hwrite⟩
    rintro _ ⟨⟩ written hwritten
    cases hwrite.symm.trans hwritten
    omega
  · next hraw =>
    cases h
    exact ⟨⟨⟨name, hname, hraw, hlen⟩, fun code hcode => (nomatch hcode), rfl⟩, bytes, rfl⟩

end MethodAttribute

end ClassText
