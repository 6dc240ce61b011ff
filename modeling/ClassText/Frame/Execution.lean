import ClassText.Frame.Action
import ClassText.Frame.Reference

/-!
# Following instructions

What an instruction makes of the frame before it. The values themselves are not
known, only their types; a jump has no effect but what it takes off the stack.
-/

namespace ClassText

structure MethodContext where
  pool : ConstantPool
  thisClass : String
  instructions : Array Instruction
deriving DecidableEq, Repr

open OperandStack

namespace LiveFrame

def push (frame : LiveFrame) (type : LiveType) : LiveFrame :=
  { frame with stack := type :: frame.stack }

def slotType (frame : LiveFrame) (index : Nat) : Except FrameFault LiveType :=
  match frame.locals[index]? with
  | some type => .ok type
  | none => .error .badIndex

def load (frame : LiveFrame) (index : Nat) (type : LiveType) : Except FrameFault LiveFrame := do
  if (← frame.slotType index) ≠ type then throw .wrongType
  else if type.width = 2 ∧ frame.locals.length ≤ index + 1 then throw .badIndex
  else return frame.push type

def loadReference (frame : LiveFrame) (index : Nat) : Except FrameFault LiveFrame := do
  let type ← frame.slotType index
  if type.isReference then return frame.push type else throw .wrongType

/-- The variables with a value put into a slot. A value of width two that loses its second slot
is gone altogether. -/
def setSlot (locals : List LiveType) (index : Nat) (type : LiveType) : List LiveType :=
  let locals :=
    if 0 < index ∧ (locals.getD (index - 1) .top).width = 2 then locals.set (index - 1) .top
    else locals
  let locals := locals.set index type
  if type.width = 2 then locals.set (index + 1) .top else locals

/-- Store the value on top, which has to be one of those allowed. -/
def store (frame : LiveFrame) (index : Nat) (allowed : LiveType → Bool) :
    Except FrameFault LiveFrame := do
  let (type, rest) ← pop frame.stack
  if !allowed type then throw .wrongType
  else if frame.locals.length < index + type.width then throw .badIndex
  else return ⟨setSlot frame.locals index type, rest⟩

def replace (frame : LiveFrame) (old new : LiveType) : LiveFrame :=
  let swap (t : LiveType) := if t = old then new else t
  ⟨frame.locals.map swap, frame.stack.map swap⟩

end LiveFrame

namespace MethodContext

variable (ctx : MethodContext)

/-- The class of the object that the `new` at a label makes. -/
def newClass (site : Label) : Except FrameFault RefType :=
  match ctx.instructions[site]? with
  | some (.constantRef .new index) => ctx.pool.referredClass index
  | _ => .error .uninitialized

/-- Take arguments off the stack, the last parameter first. Only their widths are compared. -/
def popArguments (parameters : List FieldType) (stack : OperandStack) :
    Except FrameFault OperandStack :=
  parameters.reverse.foldlM (fun stack parameter => do
    let (t, rest) ← pop stack
    if t.width = parameter.width then return rest else throw (.wrongWidth t.width)) stack

/-- What stands below the arguments of a call. -/
inductive Receiver where
  | none
  | object
  /-- A new object whose constructor is called. -/
  | fresh
deriving DecidableEq, Repr

/-- The class of an object that is initialized by its constructor. -/
def initializedClass : LiveType → Except FrameFault RefType
  | .uninitializedThis => .ok (.object ctx.thisClass)
  | .uninitialized site => ctx.newClass site
  | _ => .error .uninitialized

/-- Take the receiver of a call. A constructor makes it usable wherever it is held. -/
def popReceiver (frame : LiveFrame) : Receiver → Except FrameFault LiveFrame
  | .none => .ok frame
  | .object => do
    let (t, rest) ← pop frame.stack
    match t with
    | .null | .object _ => return { frame with stack := rest }
    | .uninitializedThis | .uninitialized _ => throw .uninitialized
    | _ => throw .wrongType
  | .fresh => do
    let (t, rest) ← pop frame.stack
    let type ← ctx.initializedClass t
    return LiveFrame.replace { frame with stack := rest } t (.object type)

def invoke (frame : LiveFrame) (type : MethodType) (receiver : Receiver) :
    Except FrameFault LiveFrame := do
  let stack ← popArguments type.parameters frame.stack
  let frame ← ctx.popReceiver { frame with stack := stack } receiver
  return { frame with stack := (type.result.map LiveType.ofField).toList ++ frame.stack }

def executeSlot (frame : LiveFrame) (opcode : Opcode) (index : Nat) :
    Except FrameFault LiveFrame :=
  match opcode with
  | .iload => frame.load index .integer
  | .lload => frame.load index .long
  | .fload => frame.load index .float
  | .dload => frame.load index .double
  | .aload => frame.loadReference index
  | .istore => frame.store index (· == .integer)
  | .lstore => frame.store index (· == .long)
  | .fstore => frame.store index (· == .float)
  | .dstore => frame.store index (· == .double)
  | .astore => frame.store index VerificationType.isReference
  | _ => .error .subroutine

def executeBranch (stack : OperandStack) (opcode : Opcode) : Except FrameFault OperandStack :=
  if Opcode.between .ifeq .ifle opcode then popType .integer stack
  else if Opcode.between .ifIcmpeq .ifIcmple opcode then popTypes [.integer, .integer] stack
  else if opcode = .ifAcmpeq ∨ opcode = .ifAcmpne then do
    let (_, rest) ← popReference stack
    return (← popReference rest).2
  else if opcode = .ifNull ∨ opcode = .ifNonNull then do
    return (← popReference stack).2
  else if opcode.isUnconditional then return stack
  else throw .subroutine

/-- Instructions whose only operand is a constant. -/
def executeConstantRef (frame : LiveFrame) (label : Label) (opcode : Opcode)
    (index : PoolIndex) : Except FrameFault LiveFrame :=
  match opcode with
  | .getStatic => do
    return frame.push (LiveType.ofField (← ctx.pool.referredField index))
  | .putStatic => do
    return { frame with stack := (← pop frame.stack).2 }
  | .getField => do
    let type ← ctx.pool.referredField index
    let (_, rest) ← popReference frame.stack
    return { frame with stack := LiveType.ofField type :: rest }
  | .putField => do
    let (_, rest) ← pop frame.stack
    return { frame with stack := (← popReference rest).2 }
  | .invokeVirtual => do
    ctx.invoke frame (← ctx.pool.referredMethod index).2 .object
  | .invokeSpecial => do
    let (name, type) ← ctx.pool.referredMethod index
    ctx.invoke frame type (if name = constructorName then .fresh else .object)
  | .invokeStatic => do
    ctx.invoke frame (← ctx.pool.referredMethod index).2 .none
  | .new => do
    let _ ← ctx.pool.referredClass index
    return frame.push (.uninitialized label)
  | .anewArray => do
    let type ← ctx.pool.referredClass index
    let rest ← popType .integer frame.stack
    return { frame with stack := .object (RefType.arrayOf (.ref type)) :: rest }
  | .checkCast => do
    let type ← ctx.pool.referredClass index
    let (_, rest) ← popReference frame.stack
    return { frame with stack := .object type :: rest }
  | .instanceOf => do
    let _ ← ctx.pool.referredClass index
    let (_, rest) ← popReference frame.stack
    return { frame with stack := .integer :: rest }
  | _ => .error .wrongType

def executeLoad (frame : LiveFrame) (index : PoolIndex) (width : Nat) :
    Except FrameFault LiveFrame := do
  let type ← ctx.pool.loadedType index
  if type.width = width then return frame.push type else throw (.wrongWidth type.width)

/-- The frame after the instruction at a label. -/
def execute (frame : LiveFrame) (label : Label) : Instruction → Except FrameFault LiveFrame
  | .simple opcode =>
    match opcode.action? with
    | some action => do return { frame with stack := ← action.run frame.stack }
    | none => .error .wrongType
  | .pushByte _ | .pushShort _ => .ok (frame.push .integer)
  | .loadConstant index _ => ctx.executeLoad frame index 1
  | .loadWideConstant index => ctx.executeLoad frame index 2
  | .slot opcode index _ => executeSlot frame opcode index.toNat
  | .increment index _ _ => do
    if (← frame.slotType index.toNat) = .integer then return frame else throw .wrongType
  | .branch opcode _ => do
    return { frame with stack := ← executeBranch frame.stack opcode }
  | .tableSwitch .. | .lookupSwitch .. => do
    return { frame with stack := ← popType .integer frame.stack }
  | .constantRef opcode index => ctx.executeConstantRef frame label opcode index
  | .invokeInterface index _ => do
    ctx.invoke frame (← ctx.pool.referredMethod index).2 .object
  | .invokeDynamic index => do
    ctx.invoke frame (← ctx.pool.referredCallSite index) .none
  | .newArray code =>
    match BaseType.ofArrayCode? code.toNat with
    | none => .error .wrongType
    | some type => do
      let rest ← popType .integer frame.stack
      return { frame with stack := .object (RefType.arrayOf (.base type)) :: rest }
  | .newMultiArray index dimensions => do
    let type ← ctx.pool.referredClass index
    let rest ← popTypes (List.replicate dimensions.toNat .integer) frame.stack
    return { frame with stack := .object type :: rest }

end MethodContext

end ClassText
