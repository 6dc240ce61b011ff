import ClassText.ClassFile
import ClassText.Code.Codec
import ClassText.ConstantPool.Codec

/-!
# Class files as bytes

A class file begins with four bytes of its own. Bytes that begin otherwise are
no class file; those that do but cannot be read further are malformed. What
belongs to one class fills the bytes to their end.
-/

namespace ClassText

open Bytes

namespace Member

variable {β : Type}

def read (body : PoolIndex → Bytes → Except ClassError β) : ByteReader (Member β) := do
  return ⟨← .word16, ← .word16, ← .word16, ← .counted (Attribute.read body)⟩

def write (body : β → Written) (m : Member β) : Written := do
  let attributes ← Written.counted (Attribute.write body) m.attributes
  return word16 m.flags ++ word16 m.name ++ word16 m.descriptor ++ attributes

end Member

def Code.attributeName : String := "Code"

def rawBody (_ : PoolIndex) (bytes : Bytes) : Except ClassError Bytes := .ok bytes

namespace MethodAttributeBody

def ofBytes (pool : ConstantPool) (name : PoolIndex) (bytes : Bytes) :
    Except ClassError MethodAttributeBody := do
  if (← pool.text name) = Code.attributeName then return .code (← Code.ofBytes pool bytes)
  else return .raw bytes

def write : MethodAttributeBody → Written
  | code c => c.write
  | raw bytes => .ok bytes

end MethodAttributeBody

namespace ClassFile

def magic : Bytes := word32 0xCAFEBABE

/-- An index at which there has to be a class. -/
def checked (pool : ConstantPool) (place : ClassPlace) (index : PoolIndex) :
    Except ClassError PoolIndex :=
  match pool.get? index with
  | some (.classRef _) => .ok index
  | _ => .error (.malformed (.notClassAt place index))

/-- The superclass, whose index is zero if there is none. -/
def checkedSuper (pool : ConstantPool) (index : PoolIndex) :
    Except ClassError (Option PoolIndex) :=
  if index = 0 then .ok none else (checked pool .superClass index).map some

def readBody : ByteReader ClassFile := do
  let minor ← .word16
  let major ← .word16
  let pool ← ConstantPool.read
  let flags ← .word16
  let thisClass ← .ofExcept (checked pool .thisClass (← .word16))
  let superClass ← .ofExcept (checkedSuper pool (← .word16))
  let interfaces ← .ofExcept ((← .counted .word16).mapM (checked pool .interface))
  let fields ← .counted (Member.read rawBody)
  let methods ← .counted (Member.read (MethodAttributeBody.ofBytes pool))
  let attributes ← .counted (Attribute.read rawBody)
  return {
    version := ⟨major, minor⟩
    pool, flags, thisClass, superClass, interfaces, fields, methods, attributes }

def ofBytes (bytes : Bytes) : Except ClassError ClassFile :=
  if magic <+: bytes then
    match readBody.run (bytes.drop magic.length) with
    | .error e => .error e
    | .ok (c, []) => .ok c
    | .ok (_, rest) => .error (.malformed (.trailingBytes rest.length))
  else .error .notClassFile

def write (c : ClassFile) : Written := do
  let pool ← c.pool.write
  let interfaces ← Written.counted (fun index => .ok (word16 index)) c.interfaces
  let fields ← Written.counted (Member.write .ok) c.fields
  let methods ← Written.counted (Member.write MethodAttributeBody.write) c.methods
  let attributes ← Written.counted (Attribute.write .ok) c.attributes
  return magic ++ word16 c.version.minor ++ word16 c.version.major ++ pool ++
    word16 c.flags ++ word16 c.thisClass ++ word16 (c.superClass.getD 0) ++
    interfaces ++ fields ++ methods ++ attributes

def toBytes (c : ClassFile) : Except ClassError Bytes :=
  c.write.mapError .write

end ClassFile

end ClassText
