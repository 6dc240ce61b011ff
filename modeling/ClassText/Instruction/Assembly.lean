import ClassText.Bytes.Writer
import ClassText.Instruction

/-!
# Assembling

Laying code out gives the offset of every instruction and of the end of the
code. Then every label has an offset, and the instructions can be written down,
with their jumps relative to themselves.

How many bytes an instruction takes is settled before any offset is known,
except that the operands of a switch are aligned. A jump whose displacement
turns out too large for its form is an error; it is not widened.
-/

namespace ClassText

namespace Instruction

/-- Bytes between the opcode of a switch and its operands, which start at a multiple of four. -/
def switchPadding (offset : Nat) : Nat :=
  3 - offset % 4

def fitsByte (v : Int16) : Bool :=
  -128 ≤ v.toInt && v.toInt ≤ 127

def isWideLoad (index : PoolIndex) (wide : Bool) : Bool :=
  wide || 255 < index.toNat

def isWideIncrement (index : UInt16) (step : Int16) (wide : Bool) : Bool :=
  wide || 255 < index.toNat || !fitsByte step

def writtenForm (opcode : Opcode) (index : UInt16) (form : SlotForm) : SlotForm :=
  if form = .wide ∨ 255 < index.toNat then .wide
  else if form = .short ∧ index.toNat ≤ 3 ∧ opcode ≠ .ret then .short
  else .normal

/-- Bytes that the instruction takes at an offset. -/
def size (offset : Nat) : Instruction → Nat
  | simple _ => 1
  | pushByte _ => 2
  | pushShort _ => 3
  | loadConstant index wide => if isWideLoad index wide then 3 else 2
  | loadWideConstant _ => 3
  | slot opcode index form =>
    match writtenForm opcode index form with
    | .short => 1
    | .normal => 2
    | .wide => 4
  | increment index step wide => if isWideIncrement index step wide then 6 else 3
  | branch opcode _ => if opcode.isLongBranch then 5 else 3
  | tableSwitch _ _ targets => 1 + switchPadding offset + 12 + 4 * targets.length
  | lookupSwitch _ pairs => 1 + switchPadding offset + 8 + 8 * pairs.length
  | constantRef .. => 3
  | invokeInterface .. => 5
  | invokeDynamic _ => 5
  | newArray _ => 2
  | newMultiArray .. => 4

theorem size_pos (offset : Nat) (insn : Instruction) : 0 < insn.size offset := by
  cases insn <;> simp only [size] <;> (try split) <;> omega

open Bytes

def displacement (offsets : Array Nat) (offset : Nat) (target : Label) : Int :=
  (offsets.getD target 0 : Int) - offset

def longJump (offsets : Array Nat) (offset : Nat) (target : Label) : Bytes :=
  word32 (Int32.ofInt (displacement offsets offset target)).toUInt32

def shortJump (offsets : Array Nat) (offset : Nat) (target : Label) :
    Except AssemblyFault Bytes :=
  let d := displacement offsets offset target
  if -32768 ≤ d ∧ d ≤ 32767 then .ok (word16 (Int16.ofInt d).toUInt16)
  else .error (.jumpOutOfRange offset (offsets.getD target 0))

/-- The bytes of an instruction at an offset, given the offsets of all labels. -/
def encode (offsets : Array Nat) (offset : Nat) : Instruction → Except AssemblyFault Bytes
  | simple opcode => .ok [opcode]
  | pushByte value => .ok [Opcode.bipush, value.toUInt8]
  | pushShort value => .ok (Opcode.sipush :: word16 value.toUInt16)
  | loadConstant index wide =>
    .ok (if isWideLoad index wide then Opcode.ldcW :: word16 index else [Opcode.ldc, index.toUInt8])
  | loadWideConstant index => .ok (Opcode.ldc2W :: word16 index)
  | slot opcode index form =>
    .ok <| match writtenForm opcode index form with
      | .short => [opcode.shortSlot index]
      | .normal => [opcode, index.toUInt8]
      | .wide => Opcode.wide :: opcode :: word16 index
  | increment index step wide =>
    .ok <|
      if isWideIncrement index step wide then
        Opcode.wide :: Opcode.iinc :: word16 index ++ word16 step.toUInt16
      else [Opcode.iinc, index.toUInt8, step.toInt8.toUInt8]
  | branch opcode target =>
    if opcode.isLongBranch then .ok (opcode :: longJump offsets offset target)
    else return opcode :: (← shortJump offsets offset target)
  | tableSwitch default low targets =>
    let high := Int32.ofInt (low.toInt + targets.length - 1)
    .ok (Opcode.tableSwitch :: List.replicate (switchPadding offset) 0 ++
      longJump offsets offset default ++ word32 low.toUInt32 ++ word32 high.toUInt32 ++
      targets.flatMap (longJump offsets offset))
  | lookupSwitch default pairs =>
    .ok (Opcode.lookupSwitch :: List.replicate (switchPadding offset) 0 ++
      longJump offsets offset default ++ word32 (.ofNat pairs.length) ++
      pairs.flatMap fun pair => word32 pair.1.toUInt32 ++ longJump offsets offset pair.2)
  | constantRef opcode index => .ok (opcode :: word16 index)
  | invokeInterface index count => .ok (Opcode.invokeInterface :: word16 index ++ [count, 0])
  | invokeDynamic index => .ok (Opcode.invokeDynamic :: word16 index ++ [0, 0])
  | newArray code => .ok [Opcode.newArray, code]
  | newMultiArray index dimensions => .ok (Opcode.multianewArray :: word16 index ++ [dimensions])

end Instruction

/-- Code that is laid out: the offsets of all labels, and the bytes. -/
structure Assembled where
  offsets : Array Nat
  bytes : Bytes
deriving DecidableEq, Repr

namespace Assembled

/-- The offset of every instruction, and of the end of the code. -/
def offsetsOf (code : Array Instruction) : Array Nat :=
  let (starts, length) := code.foldl
    (fun (starts, offset) insn => (starts.push offset, offset + insn.size offset)) (#[], 0)
  starts.push length

/-- The offsets of code that is not too long. -/
def layout (code : Array Instruction) : Except AssemblyFault (Array Nat) :=
  let offsets := offsetsOf code
  let length := offsets.back?.getD 0
  if 65535 < length then .error (.codeTooLong length) else .ok offsets

/-- Lay code out and write it down. -/
def ofCode (code : Array Instruction) : Except AssemblyFault Assembled := do
  let offsets ← layout code
  let parts ← (code.toList.zip offsets.toList).mapM fun (insn, offset) =>
    insn.encode offsets offset
  return ⟨offsets, parts.flatten⟩

end Assembled

end ClassText
