/-!
# Names of classes

A class or interface is named in internal form, `java/lang/Object`: segments
between slashes, none of them empty, with no character that means something
else in a descriptor or in source code.
-/

namespace ClassText

inductive NameProblem where
  | empty
  | emptySegment
  | illegalCharacter
deriving DecidableEq, Repr

structure NameFault where
  name : String
  problem : NameProblem
deriving DecidableEq, Repr

def NameFault.message (fault : NameFault) : String :=
  "Binary name '" ++ fault.name ++ "' " ++ match fault.problem with
    | .empty => "is empty"
    | .emptySegment => "has an empty segment"
    | .illegalCharacter => "contains an illegal character"

namespace ClassName

/-- Characters that no segment holds. -/
def isIllegal (c : Char) : Bool :=
  c == '.' || c == ';' || c == '['

/-- The first problem of the segments to come; `fresh` says that the current one is still
empty. -/
def firstProblem? (fresh : Bool) : List Char → Option NameProblem
  | [] => if fresh then some .emptySegment else none
  | c :: rest =>
    if c = '/' then
      if fresh then some .emptySegment else firstProblem? true rest
    else if isIllegal c then some .illegalCharacter
    else firstProblem? false rest

def problem? (name : String) : Option NameProblem :=
  if name.isEmpty then some .empty else firstProblem? true name.toList

def isValid (name : String) : Bool :=
  (problem? name).isNone

/-- The name itself, if it names a class. -/
def check (name : String) : Except NameFault String :=
  match problem? name with
  | some problem => .error ⟨name, problem⟩
  | none => .ok name

def object : String := "java/lang/Object"
def string : String := "java/lang/String"
def classType : String := "java/lang/Class"
def methodHandle : String := "java/lang/invoke/MethodHandle"
def methodType : String := "java/lang/invoke/MethodType"
def throwable : String := "java/lang/Throwable"

end ClassName

def constructorName : String := "<init>"

end ClassText
