import ClassText.Hierarchy

/-!
# Walks up a hierarchy

From a class upwards there are only finitely many names, however the classes
may refer to each other; a walk never takes a name twice, so it ends also where
classes extend one another in a circle.
-/

namespace ClassText

/-- A class and its superclasses, one after the other. -/
structure SuperclassChain where
  classes : List String
  /-- Did the walk end because there is no further superclass, and not at a gap? -/
  complete : Bool
deriving DecidableEq, Repr

namespace Hierarchy

/-- More steps than there are names above any class. -/
def stepLimit (h : Hierarchy) : Nat :=
  (h.known.flatMap (·.supertypes)).length + 1

/-- All names that can be reached. `seen` holds those reached so far, and `todo` those among
them from which no step has been made; every round makes a step from one name. -/
def reach (next : String → List String) : Nat → List String → List String → List String
  | 0, seen, _ => seen
  | _ + 1, seen, [] => seen
  | rounds + 1, seen, name :: todo =>
    let fresh := ((next name).filter (· ∉ seen)).eraseDups
    reach next rounds (seen ++ fresh) (todo ++ fresh)

/-- Where a walk goes from a class: to its superclass, and to its interfaces if the walk is
for an interface. -/
def above (h : Hierarchy) (toInterface : Bool) (name : String) : List String :=
  match h.resolve? name with
  | some info => if toInterface then info.supertypes else info.superclass.toList
  | none => []

/-- Is one class or interface below another? Every one is below itself and below the root.
A class that is not known is below nothing else. -/
def isSubclass (h : Hierarchy) (sub super : String) : Bool :=
  sub == super || super == ClassName.object ||
    (reach (h.above (h.isInterface super)) h.stepLimit [sub] [sub]).contains super

/-- The chain upwards from a class, after those already seen (kept in reverse). -/
def chainFrom (h : Hierarchy) : Nat → List String → String → SuperclassChain
  | 0, seen, name => ⟨(name :: seen).reverse, true⟩
  | steps + 1, seen, name =>
    let seen := name :: seen
    match h.resolve? name with
    | none => ⟨seen.reverse, false⟩
    | some info =>
      match info.superclass with
      | some super => if super ∈ seen then ⟨seen.reverse, true⟩ else h.chainFrom steps seen super
      | none => ⟨seen.reverse, true⟩

/-- A class and its superclasses, up to the first gap or the first one that comes again. -/
def superclassChain (h : Hierarchy) (name : String) : SuperclassChain :=
  h.chainFrom h.stepLimit [] name

end Hierarchy

end ClassText
