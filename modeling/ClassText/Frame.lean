import ClassText.Frame.Type

/-!
# Frames

A frame is what is known at one point of a method: the types of its local
variables, and those of the values on the stack, the top of the stack first.

A frame has one of two shapes. Spread out, every slot of the local variables has
a type of its own, and a value of width two is followed by `top`; instructions
work on this shape. Packed, such a value takes one place and unusable variables
at the end are left out; this is the shape that class files hold.
-/

namespace ClassText

structure Frame (κ υ : Type) where
  locals : List (VerificationType κ υ)
  /-- The top of the stack comes first. -/
  stack : List (VerificationType κ υ)
deriving DecidableEq, Repr, Inhabited

abbrev LiveFrame := Frame RefType Label

abbrev StoredFrame := Frame PoolIndex UInt16

namespace VerificationType

variable {κ υ : Type}

/-- Slots that the values take together. -/
def slots (types : List (VerificationType κ υ)) : Nat :=
  types.foldr (fun t n => t.width + n) 0

/-- The types with `top` after each of width two. -/
def spread (types : List (VerificationType κ υ)) : List (VerificationType κ υ) :=
  types.flatMap fun t => if t.width = 2 then [t, top] else [t]

/-- One place for each value: whatever stands after a type of width two is its second slot. -/
def join : List (VerificationType κ υ) → List (VerificationType κ υ)
  | [] => []
  | [t] => [t]
  | t :: second :: rest => if t.width = 2 then t :: join rest else t :: join (second :: rest)

/-- Without the unusable places at the end. -/
def trim [DecidableEq κ] [DecidableEq υ] (types : List (VerificationType κ υ)) :
    List (VerificationType κ υ) :=
  (types.reverse.dropWhile (· == top)).reverse

def pack [DecidableEq κ] [DecidableEq υ] (types : List (VerificationType κ υ)) :
    List (VerificationType κ υ) :=
  trim (join types)

theorem length_spread (types : List (VerificationType κ υ)) :
    (spread types).length = slots types := by
  induction types with
  | nil => rfl
  | cons t types ih =>
    have hpos := t.width_pos
    have hle := t.width_le_two
    simp only [spread, slots, List.flatMap_cons, List.length_append, List.foldr_cons] at ih ⊢
    rw [ih]
    split <;> simp <;> omega

end VerificationType

namespace Frame

variable {κ υ : Type}

def stackSize (frame : Frame κ υ) : Nat :=
  VerificationType.slots frame.stack

def pack [DecidableEq κ] [DecidableEq υ] (frame : Frame κ υ) : Frame κ υ :=
  { frame with locals := VerificationType.pack frame.locals }

/-- A packed frame with all of its slots. -/
def spread (frame : Frame κ υ) : Frame κ υ :=
  { frame with locals := VerificationType.spread frame.locals }

end Frame

namespace LiveFrame

/-- The types of the receiver: none for a static method, and for a constructor an object that
is still uninitialized, except that there is nothing to initialize in the root of all
classes. -/
def receiver (thisClass name : String) (isStatic : Bool) : List LiveType :=
  if isStatic then []
  else if name = constructorName ∧ thisClass ≠ ClassName.object then [.uninitializedThis]
  else [LiveType.ofClass thisClass]

/-- The frame with which a method begins: its receiver and parameters, and unusable variables
up to the number given. -/
def entry (thisClass name : String) (isStatic : Bool) (type : MethodType) (maxLocals : Nat) :
    LiveFrame :=
  let given := receiver thisClass name isStatic ++
    VerificationType.spread (type.parameters.map LiveType.ofField)
  ⟨given ++ List.replicate (maxLocals - given.length) .top, []⟩

/-- The frame with which a handler begins when an exception is thrown in this frame. -/
def caught (frame : LiveFrame) (exception : RefType) : LiveFrame :=
  ⟨frame.locals, [.object exception]⟩

end LiveFrame

end ClassText
