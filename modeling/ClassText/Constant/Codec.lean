import ClassText.Bytes.Reader
import ClassText.Bytes.Writer

/-!
# Constants as bytes

A constant is a tag and what belongs to the kind. A text goes with its length
in sixteen bits.
-/

namespace ClassText.Constant

open Bytes

def tag : Constant → UInt8
  | utf8 _ | undecodable _ => 1
  | integer _ => 3
  | float _ => 4
  | long _ => 5
  | double _ => 6
  | classRef _ => 7
  | string _ => 8
  | field .. => 9
  | method _ _ false => 10
  | method _ _ true => 11
  | nameAndType .. => 12
  | methodHandle .. => 15
  | methodType _ => 16
  | dynamic .. => 17
  | invokeDynamic .. => 18
  | moduleRef _ => 19
  | packageRef _ => 20

def writeText (bytes : Bytes) : Written :=
  if 65535 < bytes.length then .error (.textTooLong bytes.length)
  else .ok (word16 (.ofNat bytes.length) ++ bytes)

def writeBody : Constant → Written
  | utf8 text => writeText (ModifiedUtf8.encode text)
  | undecodable bytes => writeText bytes
  | integer value => .ok (word32 value.toUInt32)
  | float bits => .ok (word32 bits)
  | long value => .ok (word64 value.toUInt64)
  | double bits => .ok (word64 bits)
  | classRef i | string i | methodType i | moduleRef i | packageRef i => .ok (word16 i)
  | field i j | method i j _ | nameAndType i j | dynamic i j | invokeDynamic i j =>
    .ok (word16 i ++ word16 j)
  | methodHandle kind member => .ok (kind.code :: word16 member)

def write (c : Constant) : Written := do
  return c.tag :: (← c.writeBody)

/-- The text that some bytes spell, or else the bytes. -/
def ofText (bytes : Bytes) : Constant :=
  match ModifiedUtf8.decode? bytes with
  | some text => utf8 text
  | none => undecodable bytes

def handleKind : ByteReader HandleKind := do
  let code ← .byte
  match HandleKind.ofCode? code with
  | some kind => return kind
  | none => .fail (.malformed (.unknownHandleKind code))

def readBody (tag : UInt8) : ByteReader Constant := do
  match tag.toNat with
  | 1 => return ofText (← .take (← .word16).toNat)
  | 3 => return integer (← .int32)
  | 4 => return float (← .word32)
  | 5 => return long (← .int64)
  | 6 => return double (← .word64)
  | 7 => return classRef (← .word16)
  | 8 => return string (← .word16)
  | 9 => return field (← .word16) (← .word16)
  | 10 => return method (← .word16) (← .word16) false
  | 11 => return method (← .word16) (← .word16) true
  | 12 => return nameAndType (← .word16) (← .word16)
  | 15 => return methodHandle (← handleKind) (← .word16)
  | 16 => return methodType (← .word16)
  | 17 => return dynamic (← .word16) (← .word16)
  | 18 => return invokeDynamic (← .word16) (← .word16)
  | 19 => return moduleRef (← .word16)
  | 20 => return packageRef (← .word16)
  | _ => .fail (.malformed (.unknownConstantTag tag))

def read : ByteReader Constant := do
  readBody (← .byte)

end ClassText.Constant
