import ClassText.Bytes.Reader
import ClassText.Instruction.Assembly

/-!
# Decoding

Code is read from its first byte to its last. Jumps are distances in the bytes;
they are read as offsets first, and when all instructions are known, every one
of these offsets must be that of an instruction, whose label takes its place.
-/

namespace ClassText

namespace Instruction

open ByteReader

def refuse {α : Type} (cause : Malformation) : ByteReader α :=
  .fail (.malformed cause)

def absolute (offset : Nat) (distance : Int) : ByteReader Nat :=
  let target := offset + distance
  if target < 0 then refuse (.jumpBeforeStart offset) else return target.toNat

def readTarget (offset : Nat) : ByteReader Nat := do
  absolute offset (← int32).toInt

def readTableSwitch (offset : Nat) : ByteReader Instruction := do
  let _ ← take (switchPadding offset)
  let default ← readTarget offset
  let low ← int32
  let high ← int32
  if high.toInt < low.toInt then
    refuse (.tableSwitchBounds offset high.toInt low.toInt)
  else
    let count := (high.toInt - low.toInt + 1).toNat
    return tableSwitch default low (← times count (readTarget offset))

def readLookupSwitch (offset : Nat) : ByteReader Instruction := do
  let _ ← take (switchPadding offset)
  let default ← readTarget offset
  let count ← int32
  if count.toInt < 0 then refuse (.lookupSwitchCount offset)
  else
    let pairs ← times count.toInt.toNat do
      let key ← int32
      return (key, ← readTarget offset)
    return lookupSwitch default pairs

def readWide (offset : Nat) : ByteReader Instruction := do
  let opcode : Opcode ← byte
  if opcode = .iinc then return increment (← word16) (← int16) true
  else if opcode.isSlot then return slot opcode (← word16) .wide
  else refuse (.wideOpcode opcode offset)

/-- The rest of an instruction whose opcode belongs to no family. -/
def readSpecial (offset : Nat) (opcode : Opcode) : ByteReader Instruction := do
  match opcode with
  | .bipush => return pushByte (← int8)
  | .sipush => return pushShort (← int16)
  | .ldc => return loadConstant (← byte).toUInt16 false
  | .ldcW => return loadConstant (← word16) true
  | .ldc2W => return loadWideConstant (← word16)
  | .iinc => return increment (← byte).toUInt16 (← int8).toInt16 false
  | .wide => readWide offset
  | .tableSwitch => readTableSwitch offset
  | .lookupSwitch => readLookupSwitch offset
  | .invokeInterface =>
    let index ← word16
    let count ← byte
    let _ ← byte
    return invokeInterface index count
  | .invokeDynamic =>
    let index ← word16
    let _ ← word16
    return invokeDynamic index
  | .newArray => return newArray (← byte)
  | .multianewArray => return newMultiArray (← word16) (← byte)
  | _ => refuse (.unknownOpcode opcode offset)

/-- The rest of an instruction at an offset, with offsets for targets. -/
def readOperands (offset : Nat) (opcode : Opcode) : ByteReader Instruction := do
  if opcode.isSimple then return simple opcode
  else if opcode.isSlot then return slot opcode (← byte).toUInt16 .normal
  else if opcode.isShortBranch then
    return branch opcode (← absolute offset (← int16).toInt)
  else if opcode.isLongBranch then return branch opcode (← readTarget offset)
  else if opcode.isConstantRef then return constantRef opcode (← word16)
  else match opcode.ofShortSlot? with
    | some (opcode, index) => return slot opcode index .short
    | none => readSpecial offset opcode

def read (offset : Nat) : ByteReader Instruction := do
  readOperands offset (← byte)

end Instruction

/-- Code as it is read: the instructions, and the offsets of all labels in the bytes. -/
structure Decoded where
  instructions : Array Instruction
  offsets : Array Nat
deriving DecidableEq, Repr

namespace Decoded

/-- The instructions of the bytes that are left of so many, with offsets for targets. An
instruction is at the offset that its reader starts from. There are no more instructions than
bytes, so `fuel` for every byte is enough. -/
def scan (total : Nat) : Nat → Bytes → Decoded → Except ClassError Decoded
  | _, [], read => .ok { read with offsets := read.offsets.push total }
  | 0, _ :: _, read => .ok read
  | fuel + 1, bytes, read =>
    let offset := total - bytes.length
    match (Instruction.read offset).run bytes with
    | .error e => .error e
    | .ok (insn, rest) =>
      scan total fuel rest ⟨read.instructions.push insn, read.offsets.push offset⟩

/-- The label at an offset. -/
def labelAt? (offsets : Array Nat) (offset : Nat) : Option Label :=
  offsets.idxOf? offset

/-- The label of the instruction at an offset. -/
def startAt? (offsets : Array Nat) (offset : Nat) : Option Label :=
  (labelAt? offsets offset).filter (· + 1 < offsets.size)

/-- Put labels in the place of offsets. -/
def resolve (read : Decoded) : Except ClassError Decoded := do
  let instructions ← (read.instructions.toList.zip read.offsets.toList).mapM fun (insn, offset) =>
    insn.mapTargets fun target =>
      match startAt? read.offsets target with
      | some label => .ok label
      | none => .error (.malformed (.jumpTarget offset target))
  return { read with instructions := instructions.toArray }

def ofBytes (bytes : Bytes) : Except ClassError Decoded := do
  resolve (← scan bytes.length bytes.length bytes ⟨#[], #[]⟩)

end Decoded

end ClassText
