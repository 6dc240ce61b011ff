import ClassText.Constant
import ClassText.Instruction.Opcode

/-!
# Instructions

Instructions refer to each other by labels, their positions in the list of all
instructions of a method. So an instruction can take more bytes than before,
and every jump still leads where it led. The label after the last instruction
stands for the end of the code.
-/

namespace ClassText

/-- The position of an instruction in its method. -/
abbrev Label := Nat

/-- How a load, a store or `ret` names its variable. -/
inductive SlotForm where
  /-- Within the opcode. -/
  | short
  /-- In one byte. -/
  | normal
  /-- In two bytes, after `wide`. -/
  | wide
deriving DecidableEq, Repr

/-- An instruction.

A load of a constant takes the long form where `wide` says so or the index does
not fit in a byte; in the same way a variable or a step that is too large for
the form given takes a larger one. -/
inductive Instruction where
  | simple (opcode : Opcode)
  | pushByte (value : Int8)
  | pushShort (value : Int16)
  | loadConstant (index : PoolIndex) (wide : Bool)
  | loadWideConstant (index : PoolIndex)
  | slot (opcode : Opcode) (index : UInt16) (form : SlotForm)
  | increment (index : UInt16) (step : Int16) (wide : Bool)
  | branch (opcode : Opcode) (target : Label)
  | tableSwitch (default : Label) (low : Int32) (targets : List Label)
  | lookupSwitch (default : Label) (pairs : List (Int32 × Label))
  | constantRef (opcode : Opcode) (index : PoolIndex)
  | invokeInterface (index : PoolIndex) (count : UInt8)
  | invokeDynamic (index : PoolIndex)
  | newArray (code : UInt8)
  | newMultiArray (index : PoolIndex) (dimensions : UInt8)
deriving DecidableEq, Repr

namespace Instruction

instance : Inhabited Instruction := ⟨simple .nop⟩

def targets : Instruction → List Label
  | branch _ target => [target]
  | tableSwitch default _ targets => default :: targets
  | lookupSwitch default pairs => default :: pairs.map (·.2)
  | _ => []

/-- Can the next instruction come after this one without a jump? -/
def fallsThrough : Instruction → Bool
  | simple opcode => !opcode.leavesMethod
  | branch opcode _ => !opcode.isUnconditional
  | slot opcode _ _ => opcode != .ret
  | tableSwitch .. | lookupSwitch .. => false
  | _ => true

/-- The constant that the instruction loads, if it is one that may have a short index. -/
def loadedConstant? : Instruction → Option PoolIndex
  | loadConstant index _ => some index
  | _ => none

def isSubroutine : Instruction → Bool
  | branch opcode _ | slot opcode _ _ => opcode.isSubroutine
  | _ => false

/-- Replace every target, unless one of them has no replacement. -/
def mapTargets {ε : Type} (f : Label → Except ε Label) : Instruction → Except ε Instruction
  | branch opcode target => return branch opcode (← f target)
  | tableSwitch default low targets => return tableSwitch (← f default) low (← targets.mapM f)
  | lookupSwitch default pairs =>
    return lookupSwitch (← f default) (← pairs.mapM fun pair => return (pair.1, ← f pair.2))
  | other => .ok other

end Instruction

end ClassText
