import ClassText.Frame.Stack

/-!
# Instructions without operands

What an instruction without operands does to the stack. There are few kinds of
them: most take values of fixed types off the stack and put one back.
-/

namespace ClassText

inductive SimpleAction where
  /-- Take values of these types, the topmost first, and leave a result. -/
  | operate (operands : List LiveType) (result : Option LiveType)
  | shuffle (form : StackMove)
  /-- Take an index and an array, and leave an element of this type. -/
  | loadElement (type : LiveType)
  /-- Take an index and an array of references, and leave a component. -/
  | loadReference
  /-- Take an element of this type, an index and an array. -/
  | storeElement (type : LiveType)
  /-- Take a reference, an index and an array of references. -/
  | storeReference
  /-- Take a reference. -/
  | dropReference
  /-- Take an array, and leave its length. -/
  | arrayLength
deriving DecidableEq, Repr

def SimpleAction.push (type : LiveType) : SimpleAction := operate [] (some type)

open SimpleAction in
/-- What an instruction without operands does. -/
def Opcode.action? (opcode : Opcode) : Option SimpleAction :=
  match opcode with
  | nop | returnVoid => some (operate [] none)
  | aconstNull => some (push .null)
  | iconstM1 | iconst0 | iconst1 | iconst2 | iconst3 | iconst4 | iconst5 => some (push .integer)
  | lconst0 | lconst1 => some (push .long)
  | fconst0 | fconst1 | fconst2 => some (push .float)
  | dconst0 | dconst1 => some (push .double)
  | iaload | baload | caload | saload => some (loadElement .integer)
  | laload => some (loadElement .long)
  | faload => some (loadElement .float)
  | daload => some (loadElement .double)
  | aaload => some loadReference
  | iastore | bastore | castore | sastore => some (storeElement .integer)
  | lastore => some (storeElement .long)
  | fastore => some (storeElement .float)
  | dastore => some (storeElement .double)
  | aastore => some storeReference
  | pop => some (shuffle .pop)
  | pop2 => some (shuffle .pop2)
  | dup => some (shuffle .dup)
  | dupX1 => some (shuffle .dupX1)
  | dupX2 => some (shuffle .dupX2)
  | dup2 => some (shuffle .dup2)
  | dup2X1 => some (shuffle .dup2X1)
  | dup2X2 => some (shuffle .dup2X2)
  | swap => some (shuffle .swap)
  | iadd | isub | imul | idiv | irem | iand | ior | ixor | ishl | ishr | iushr =>
    some (operate [.integer, .integer] (some .integer))
  | ladd | lsub | lmul | ldiv | lrem | land | lor | lxor =>
    some (operate [.long, .long] (some .long))
  | fadd | fsub | fmul | fdiv | frem => some (operate [.float, .float] (some .float))
  | dadd | dsub | dmul | ddiv | drem => some (operate [.double, .double] (some .double))
  | lshl | lshr | lushr => some (operate [.integer, .long] (some .long))
  | ineg | i2b | i2c | i2s => some (operate [.integer] (some .integer))
  | lneg => some (operate [.long] (some .long))
  | fneg => some (operate [.float] (some .float))
  | dneg => some (operate [.double] (some .double))
  | i2l => some (operate [.integer] (some .long))
  | i2f => some (operate [.integer] (some .float))
  | i2d => some (operate [.integer] (some .double))
  | l2i => some (operate [.long] (some .integer))
  | l2f => some (operate [.long] (some .float))
  | l2d => some (operate [.long] (some .double))
  | f2i => some (operate [.float] (some .integer))
  | f2l => some (operate [.float] (some .long))
  | f2d => some (operate [.float] (some .double))
  | d2i => some (operate [.double] (some .integer))
  | d2l => some (operate [.double] (some .long))
  | d2f => some (operate [.double] (some .float))
  | lcmp => some (operate [.long, .long] (some .integer))
  | fcmpl | fcmpg => some (operate [.float, .float] (some .integer))
  | dcmpl | dcmpg => some (operate [.double, .double] (some .integer))
  | ireturn => some (operate [.integer] none)
  | lreturn => some (operate [.long] none)
  | freturn => some (operate [.float] none)
  | dreturn => some (operate [.double] none)
  | areturn | athrow | monitorEnter | monitorExit => some dropReference
  | Opcode.arrayLength => some SimpleAction.arrayLength
  | _ => none

namespace SimpleAction

open OperandStack

/-- The type of the components of a value that should be an array of references. What is null
has null components. -/
def componentOf : LiveType → Except FrameFault LiveType
  | .null => .ok .null
  | .object type =>
    match type.component? with
    | some (.ref component) => .ok (.object component)
    | _ => .error .notArray
  | _ => .error .notArray

/-- Is this value an array, for all that is known? -/
def mayBeArray : LiveType → Bool
  | .null => true
  | .object type => type.isArray
  | _ => false

def run : SimpleAction → OperandStack → Except FrameFault OperandStack
  | operate operands result, stack => do
    return result.toList ++ (← popTypes operands stack)
  | shuffle form, stack => OperandStack.move form stack
  | loadElement type, stack => do
    let (_, rest) ← popReference (← popType .integer stack)
    return type :: rest
  | loadReference, stack => do
    let (array, rest) ← popReference (← popType .integer stack)
    return (← componentOf array) :: rest
  | storeElement type, stack => do
    let (_, rest) ← popReference (← popTypes [type, .integer] stack)
    return rest
  | storeReference, stack => do
    let (_, rest) ← popReference stack
    let (_, rest) ← popReference (← popType .integer rest)
    return rest
  | dropReference, stack => do
    let (_, rest) ← popReference stack
    return rest
  | arrayLength, stack => do
    let (array, rest) ← popReference stack
    if mayBeArray array then return .integer :: rest else throw .notArray

end SimpleAction

end ClassText
