import ClassText.Attribute
import ClassText.ConstantPool
import ClassText.Frame.Delta
import ClassText.Instruction.Assembly

/-!
# The code of a method

Instructions, exception handlers and attributes, all with labels in place of
offsets wherever the meaning of an attribute is known. Attributes that are kept
as bytes may hold offsets too; some of them have names that tell, and these are
dropped when the instructions move.
-/

namespace ClassText

/-- Instructions from `start` on, up to `stop` and without it, are guarded by a handler. -/
structure Handler where
  start : Label
  stop : Label
  target : Label
  /-- The class of the exceptions, or none for all of them. -/
  catchType : Option PoolIndex
deriving DecidableEq, Repr

structure SourceLine where
  start : Label
  line : UInt16
deriving DecidableEq, Repr

/-- A variable of the source code, and the instructions during which it has a value. -/
structure SourceVariable where
  start : Label
  stop : Label
  name : PoolIndex
  descriptor : PoolIndex
  slot : UInt16
deriving DecidableEq, Repr

inductive CodeAttributeBody where
  | lines (entries : List SourceLine)
  | variables (entries : List SourceVariable)
  | variableTypes (entries : List SourceVariable)
  | frames (table : FrameTable)
  | raw (bytes : Bytes)
deriving DecidableEq, Repr

abbrev CodeAttribute := Attribute CodeAttributeBody

structure Code where
  maxStack : UInt16
  maxLocals : UInt16
  instructions : Array Instruction
  /-- The offsets of all labels in the bytes from which the code was read. -/
  sourceOffsets : Array Nat
  handlers : List Handler
  attributes : List CodeAttribute
deriving DecidableEq, Repr

namespace CodeAttribute

def lineTable : String := "LineNumberTable"
def variableTable : String := "LocalVariableTable"
def variableTypeTable : String := "LocalVariableTypeTable"
def frameTable : String := "StackMapTable"

def offsetNames : List String := [lineTable, variableTable, variableTypeTable, frameTable,
  "RuntimeVisibleTypeAnnotations", "RuntimeInvisibleTypeAnnotations"]

/-- Is the attribute kept as bytes which hold offsets? -/
def isStale (pool : ConstantPool) (a : Attribute CodeAttributeBody) : Bool :=
  match a.body with
  | .raw _ => offsetNames.any fun name => pool.text? a.name == some name
  | _ => false

end CodeAttribute

namespace Code

/-- Lay the code out and write its instructions down. -/
def assemble (code : Code) : Except AssemblyFault Assembled :=
  Assembled.ofCode code.instructions

def attribute? (code : Code) (pool : ConstantPool) (name : String) : Option CodeAttribute :=
  code.attributes.find? fun a => pool.text? a.name == some name

def staleNames (code : Code) (pool : ConstantPool) : List String :=
  (code.attributes.filter (CodeAttribute.isStale pool)).filterMap fun a => pool.text? a.name

/-- Leave out the attributes that hold offsets in bytes. -/
def dropStale (code : Code) (pool : ConstantPool) : Code :=
  { code with attributes := code.attributes.filter fun a => !CodeAttribute.isStale pool a }

/-- Put a table of frames in the place of an earlier one, as an attribute whose name is at the
given index. An empty table is left out. -/
def withFrames (code : Code) (name : PoolIndex) (table : FrameTable) : Code :=
  let others := code.attributes.filter (·.name != name)
  { code with
    attributes := if table.isEmpty then others else others ++ [⟨name, .frames table⟩] }

end Code

/-! ## Changes

A change of code can need new constants, for which there may be no room. What was changed before
it failed stays changed, both in the code and in the pool. -/

/-- A result or an error, and the code and the pool that are left in either case. -/
abbrev CodeChange (α : Type) := ExceptT ClassError (StateM (Code × ConstantPool)) α

namespace CodeChange

def ofPool {α : Type} (change : PoolChange α) : CodeChange α :=
  fun (code, pool) =>
    let (result, pool) := change pool
    (result, code, pool)

/-- The changed code, as the result of a change of the pool. -/
def code (change : CodeChange Unit) (before : Code) : PoolChange Code :=
  fun pool =>
    let (result, after, pool) := change (before, pool)
    (result.map fun _ => after, pool)

def setFrames (table : FrameTable) : CodeChange Unit := do
  let name ← ofPool (PoolChange.internText CodeAttribute.frameTable)
  modify fun (code, pool) => (code.withFrames name table, pool)

end CodeChange

end ClassText
