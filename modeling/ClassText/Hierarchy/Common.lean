import ClassText.Descriptor
import ClassText.Hierarchy.Walk

/-!
# Common superclasses

The closest type that two types are both below. The answer is missing only
where a gap in the hierarchy hides it.
-/

namespace ClassText.Hierarchy

/-- The closest class that two classes are both below. Two classes neither of which is below
the other have only the root in common as soon as one of them is an interface. -/
def commonSuperclass? (h : Hierarchy) (a b : String) : Option String :=
  if a = b then some a
  else if a = ClassName.object ∨ b = ClassName.object then some ClassName.object
  else if h.isSubclass b a then some a
  else if h.isSubclass a b then some b
  else if h.isInterface a ∨ h.isInterface b then some ClassName.object
  else
    let chain := h.superclassChain a
    let other := h.superclassChain b
    match chain.classes.find? (· ∈ other.classes) with
    | some common => some common
    | none => if chain.complete ∧ other.complete then some ClassName.object else none

/-- Dimensions of an array whose components are references. -/
def referenceDepth : RefType → Nat
  | .object _ => 0
  | .array extra (.object _) => extra + 1
  | .array extra (.base _) => extra

def rootArray : Nat → RefType
  | 0 => .object ClassName.object
  | extra + 1 => .array extra (.object ClassName.object)

/-- The closest reference type that two types are both below. -/
def commonRefType? (h : Hierarchy) (s t : RefType) : Option RefType :=
  if s = t then some s
  else match s, t with
    | .object a, .object b => (h.commonSuperclass? a b).map .object
    | .array m (.object a), .array n (.object b) =>
      if m = n then (h.commonSuperclass? a b).map fun name => .array m (.object name)
      else some (rootArray (min (referenceDepth s) (referenceDepth t)))
    | _, _ => some (rootArray (min (referenceDepth s) (referenceDepth t)))

end ClassText.Hierarchy
