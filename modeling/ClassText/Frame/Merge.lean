import ClassText.Fault
import ClassText.Frame
import ClassText.Hierarchy.Common

/-!
# Merging frames

Where paths through a method come together, a value has a type that covers
those on all paths. References meet at their closest common superclass. If gaps
in the hierarchy hide it, the type that the class file recorded at this place
is taken, for the same instructions were accepted with it; else two exceptions
meet at `java/lang/Throwable`, and anything else at the root.
-/

namespace ClassText

/-- What is known about the classes of a method: where they stand, and which classes its
handlers catch. Those are exceptions, whether they are known or not. -/
structure Ancestry where
  hierarchy : Hierarchy
  caught : List String
deriving DecidableEq, Repr

namespace Ancestry

variable (a : Ancestry)

def isThrowable : RefType → Bool
  | .object name => (a.hierarchy.superclassChain name).classes.any fun c =>
      c == ClassName.throwable || a.caught.contains c
  | .array .. => false

/-- A type that covers two reference types, given the one recorded. -/
def mergeReferences (s t : RefType) (recorded : Option LiveType) : RefType :=
  match a.hierarchy.commonRefType? s t with
  | some common => common
  | none =>
    match recorded with
    | some (.object type) => type
    | _ =>
      if a.isThrowable s ∧ a.isThrowable t then .object ClassName.throwable
      else .object ClassName.object

/-- A type that covers two types, given the one recorded. There is none but `top` for values
of different kinds. -/
def merge (t u : LiveType) (recorded : Option LiveType) : LiveType :=
  if t = u then t
  else match t, u with
    | .null, .object type => .object type
    | .object type, .null => .object type
    | .object s, .object t => .object (a.mergeReferences s t recorded)
    | _, _ => .top

/-- Merge types place by place. Places that only one side has stay as they are. -/
def mergeAll (types others : List LiveType) (recorded : List LiveType) : List LiveType :=
  let expected := recorded.map some ++ List.replicate (types.length - recorded.length) none
  let merged := List.zipWith (fun (t, r) u => a.merge t u r) (types.zip expected) others
  merged ++ types.drop merged.length

/-- A frame that covers two frames, given the one recorded. Variables may become unusable, but
nothing on the stack may. -/
def mergeFrames (frame incoming : LiveFrame) (recorded : Option LiveFrame) :
    Except FrameFault LiveFrame :=
  if frame.stack.length ≠ incoming.stack.length then
    .error (.stackHeights frame.stackSize incoming.stackSize)
  else
    let recordedStack := match recorded with
      | some r => if r.stack.length = frame.stack.length then r.stack else []
      | none => []
    let stack := a.mergeAll frame.stack incoming.stack recordedStack
    if stack.contains .top then .error .wrongType
    else .ok ⟨a.mergeAll frame.locals incoming.locals ((recorded.map (·.locals)).getD []), stack⟩

end Ancestry

end ClassText
