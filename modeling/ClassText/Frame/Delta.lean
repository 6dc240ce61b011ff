import ClassText.Frame

/-!
# Tables of frames

A class file does not hold the frames of a method one by one. It holds, for
every frame but the first, how the frame differs from the one before it. The
common differences have short forms: nothing changed, one value on the stack,
one to three variables less or more. Everything else is given in full.

`Frame.after?` says what a difference means, and `Frame.deltaFrom` finds the
shortest one.
-/

namespace ClassText

/-- How a packed frame differs from the one before it, and how far behind that one it is. -/
inductive FrameDelta (κ υ : Type) where
  /-- The same variables, and nothing on the stack. -/
  | same (offset : UInt16)
  /-- The same variables, and one value on the stack. -/
  | sameOne (offset : UInt16) (value : VerificationType κ υ)
  /-- Without the last variables, and nothing on the stack. -/
  | chop (offset : UInt16) (count : Nat)
  /-- With more variables, and nothing on the stack. -/
  | append (offset : UInt16) (locals : List (VerificationType κ υ))
  | full (offset : UInt16) (frame : Frame κ υ)
deriving DecidableEq, Repr

abbrev FrameTable := List (FrameDelta PoolIndex UInt16)

variable {κ υ : Type}

namespace FrameDelta

/-- The offset of the frame, less one more than that of the frame before it. -/
def offset : FrameDelta κ υ → UInt16
  | same offset | sameOne offset _ | chop offset _ | append offset _ | full offset _ => offset

def mapM {κ' υ' : Type} {m : Type → Type} [Monad m] (f : κ → m κ') (g : υ → m υ') :
    FrameDelta κ υ → m (FrameDelta κ' υ')
  | same offset => return same offset
  | sameOne offset value => return sameOne offset (← value.mapM f g)
  | chop offset count => return chop offset count
  | append offset locals => return append offset (← locals.mapM (·.mapM f g))
  | full offset frame =>
    return full offset ⟨← frame.locals.mapM (·.mapM f g), ← frame.stack.mapM (·.mapM f g)⟩

end FrameDelta

namespace Frame

/-- The packed frame that differs in this way from a packed frame. There are not always enough
variables to leave out. -/
def after? (previous : Frame κ υ) : FrameDelta κ υ → Option (Frame κ υ)
  | .same _ => some ⟨previous.locals, []⟩
  | .sameOne _ value => some ⟨previous.locals, [value]⟩
  | .chop _ count =>
    if count ≤ previous.locals.length then
      some ⟨previous.locals.take (previous.locals.length - count), []⟩
    else none
  | .append _ locals => some ⟨previous.locals ++ locals, []⟩
  | .full _ frame => some frame

variable [DecidableEq κ] [DecidableEq υ]

/-- How a packed frame differs from the one before it, in the shortest form there is. -/
def deltaFrom (frame previous : Frame κ υ) (offset : UInt16) : FrameDelta κ υ :=
  let now := frame.locals.length
  let before := previous.locals.length
  match frame.stack with
  | [] =>
    if frame.locals = previous.locals then .same offset
    else if now < before ∧ before < now + 4 ∧ frame.locals <+: previous.locals then
      .chop offset (before - now)
    else if before < now ∧ now < before + 4 ∧ previous.locals <+: frame.locals then
      .append offset (frame.locals.drop before)
    else .full offset frame
  | [value] => if frame.locals = previous.locals then .sameOne offset value else .full offset frame
  | _ => .full offset frame

end Frame

end ClassText
