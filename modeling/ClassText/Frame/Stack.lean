import ClassText.Fault
import ClassText.Frame

/-!
# The stack of operands

Taking values off a stack, and the instructions that only move values around.
They move so many slots, whatever stands in them. Since a value of width two
takes two of them, each instruction has a form for every way to fill its slots
with values, and the widths of the values on top tell the form.
-/

namespace ClassText

/-- The types of the values on a stack, the top first. -/
abbrev OperandStack := List LiveType

/-- Instructions that move values without looking at more than their widths. -/
inductive StackMove where
  | pop | pop2 | dup | dupX1 | dupX2 | dup2 | dup2X1 | dup2X2 | swap
deriving DecidableEq, Repr

namespace OperandStack

def pop : OperandStack → Except FrameFault (LiveType × OperandStack)
  | [] => .error .emptyStack
  | t :: rest => .ok (t, rest)

def popType (type : LiveType) (stack : OperandStack) : Except FrameFault OperandStack := do
  let (t, rest) ← pop stack
  if t = type then return rest else throw .wrongType

/-- What is left below values of the types, the topmost first. -/
def popTypes (types : List LiveType) (stack : OperandStack) : Except FrameFault OperandStack :=
  types.foldlM (fun stack type => popType type stack) stack

def popReference (stack : OperandStack) : Except FrameFault (LiveType × OperandStack) := do
  let (t, rest) ← pop stack
  if t.isReference then return (t, rest) else throw .wrongType

/-- The topmost value, which has to be of this width. -/
def popWidth (width : Nat) (stack : OperandStack) :
    Except FrameFault (LiveType × OperandStack) := do
  let (t, rest) ← pop stack
  if t.width = width then return (t, rest) else throw (.wrongWidth t.width)

def move : StackMove → OperandStack → Except FrameFault OperandStack
  | .pop, stack => do
    let (_, rest) ← popWidth 1 stack
    return rest
  | .pop2, stack => do
    let (first, rest) ← pop stack
    match first.width with
    | 1 => do
      let (_, rest) ← popWidth 1 rest
      return rest
    | _ => return rest
  | .dup, stack => do
    let (first, rest) ← popWidth 1 stack
    return first :: first :: rest
  | .dupX1, stack => do
    let (first, rest) ← popWidth 1 stack
    let (second, rest) ← popWidth 1 rest
    return first :: second :: first :: rest
  | .dupX2, stack => do
    let (first, rest) ← popWidth 1 stack
    let (second, rest) ← pop rest
    match second.width with
    | 1 => do
      let (third, rest) ← popWidth 1 rest
      return first :: second :: third :: first :: rest
    | _ => return first :: second :: first :: rest
  | .dup2, stack => do
    let (first, rest) ← pop stack
    match first.width with
    | 1 => do
      let (second, rest) ← popWidth 1 rest
      return first :: second :: first :: second :: rest
    | _ => return first :: first :: rest
  | .dup2X1, stack => do
    let (first, rest) ← pop stack
    let (second, rest) ← popWidth 1 rest
    match first.width with
    | 1 => do
      let (third, rest) ← popWidth 1 rest
      return first :: second :: third :: first :: second :: rest
    | _ => return first :: second :: first :: rest
  | .dup2X2, stack => do
    let (first, rest) ← pop stack
    match first.width with
    | 1 => do
      let (second, rest) ← popWidth 1 rest
      let (third, rest) ← pop rest
      match third.width with
      | 1 => do
        let (fourth, rest) ← popWidth 1 rest
        return first :: second :: third :: fourth :: first :: second :: rest
      | _ => return first :: second :: third :: first :: second :: rest
    | _ => do
      let (second, rest) ← pop rest
      match second.width with
      | 1 => do
        let (third, rest) ← popWidth 1 rest
        return first :: second :: third :: first :: rest
      | _ => return first :: second :: first :: rest
  | .swap, stack => do
    let (first, rest) ← popWidth 1 stack
    let (second, rest) ← popWidth 1 rest
    return second :: first :: rest

end OperandStack

end ClassText
