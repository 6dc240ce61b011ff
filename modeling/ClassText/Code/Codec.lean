import ClassText.Code
import ClassText.Frame.Delta.Codec
import ClassText.Instruction.Decoding

/-!
# Code as bytes

Reading turns the offsets of handlers and of the attributes that are understood
into labels; writing turns labels into the offsets of a new layout. An
attribute whose offsets do not belong to instructions is kept as it is.
-/

namespace ClassText

open Bytes

/-- A value that takes all of some bytes. -/
def ByteReader.whole? {α : Type} (reader : ByteReader α) (bytes : Bytes) : Option α :=
  match reader.run bytes with
  | .ok (a, []) => some a
  | _ => none

namespace CodeAttribute

/-- Lines, if every one of them begins at an instruction. -/
def readLines? (offsets : Array Nat) (bytes : Bytes) : Option (List SourceLine) := do
  let entries ← ByteReader.whole? (.counted do return (← .word16, ← .word16)) bytes
  entries.mapM fun (start, line) => return ⟨← Decoded.startAt? offsets start.toNat, line⟩

/-- Variables, if the range of every one of them begins and ends at a label. -/
def readVariables? (offsets : Array Nat) (bytes : Bytes) : Option (List SourceVariable) := do
  let entries ← ByteReader.whole?
    (.counted do return (← .word16, ← .word16, ← .word16, ← .word16, ← .word16)) bytes
  entries.mapM fun (start, length, name, descriptor, slot) =>
    return ⟨← Decoded.labelAt? offsets start.toNat,
      ← Decoded.labelAt? offsets (start.toNat + length.toNat), name, descriptor, slot⟩

/-- What an attribute of this name holds, given the offsets of all labels. -/
def bodyOf (offsets : Array Nat) (name : String) (bytes : Bytes) : CodeAttributeBody :=
  let known? :=
    if name = lineTable then (readLines? offsets bytes).map .lines
    else if name = variableTable then (readVariables? offsets bytes).map .variables
    else if name = variableTypeTable then (readVariables? offsets bytes).map .variableTypes
    else none
  known?.getD (.raw bytes)

def read (pool : ConstantPool) (offsets : Array Nat) : ByteReader CodeAttribute :=
  Attribute.read fun name bytes => return bodyOf offsets (← pool.text name) bytes

def writeLabel (offsets : Array Nat) (label : Label) : Bytes :=
  word16 (.ofNat (offsets.getD label 0))

def writeLine (offsets : Array Nat) (entry : SourceLine) : Bytes :=
  writeLabel offsets entry.start ++ word16 entry.line

def writeVariable (offsets : Array Nat) (entry : SourceVariable) : Bytes :=
  writeLabel offsets entry.start ++
    word16 (.ofNat (offsets.getD entry.stop 0 - offsets.getD entry.start 0)) ++
    word16 entry.name ++ word16 entry.descriptor ++ word16 entry.slot

def writeBody (offsets : Array Nat) : CodeAttributeBody → Written
  | .lines entries => Written.truncated (fun e => .ok (writeLine offsets e)) entries
  | .variables entries | .variableTypes entries =>
    Written.truncated (fun e => .ok (writeVariable offsets e)) entries
  | .frames table => FrameTable.write table
  | .raw bytes => .ok bytes

def write (offsets : Array Nat) (a : CodeAttribute) : Written :=
  Attribute.write (writeBody offsets) a

end CodeAttribute

namespace Handler

def label (found : Option Label) (offset : UInt16) : ByteReader Label :=
  match found with
  | some label => return label
  | none => .fail (.malformed (.rangeOffset offset.toNat))

def readStart (offsets : Array Nat) : ByteReader Label := do
  let offset ← .word16
  label (Decoded.startAt? offsets offset.toNat) offset

/-- A label that may be that of the end, from its offset. -/
def readStop (offsets : Array Nat) : ByteReader Label := do
  let offset ← .word16
  label (Decoded.labelAt? offsets offset.toNat) offset

def read (offsets : Array Nat) : ByteReader Handler := do
  let start ← readStart offsets
  let stop ← readStop offsets
  let target ← readStart offsets
  let catchType ← .word16
  return ⟨start, stop, target, if catchType = 0 then none else some catchType⟩

def write (offsets : Array Nat) (handler : Handler) : Bytes :=
  CodeAttribute.writeLabel offsets handler.start ++
    CodeAttribute.writeLabel offsets handler.stop ++
    CodeAttribute.writeLabel offsets handler.target ++ word16 (handler.catchType.getD 0)

end Handler

namespace Code

def read (pool : ConstantPool) : ByteReader Code := do
  let maxStack ← .word16
  let maxLocals ← .word16
  let length ← .word32
  if length.toNat = 0 ∨ 65535 < length.toNat then
    .fail (.malformed (.codeLength length.toNat))
  else
    let bytes ← .take length.toNat
    let ⟨instructions, offsets⟩ ← .ofExcept (Decoded.ofBytes bytes)
    let handlers ← .counted (Handler.read offsets)
    let attributes ← .counted (CodeAttribute.read pool offsets)
    return ⟨maxStack, maxLocals, instructions, offsets, handlers, attributes⟩

/-- The code that some bytes hold, and nothing else. -/
def ofBytes (pool : ConstantPool) (bytes : Bytes) : Except ClassError Code := do
  match ← (read pool).run bytes with
  | (code, []) => return code
  | _ => throw (.malformed .trailingCodeBytes)

/-- Why there are no bytes, if the code cannot be assembled. -/
def assembleToWrite (code : Code) : Except WriteFault Assembled :=
  code.assemble.mapError .code

def write (code : Code) : Written := do
  let ⟨offsets, bytes⟩ ← code.assembleToWrite
  let handlers ← Written.truncated (fun h => .ok (h.write offsets)) code.handlers
  let attributes ← Written.truncated (CodeAttribute.write offsets) code.attributes
  return word16 code.maxStack ++ word16 code.maxLocals ++ Written.block bytes ++ handlers ++
    attributes

end Code

end ClassText
