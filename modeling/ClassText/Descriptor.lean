import ClassText.Name

/-!
# Types and their descriptors

The types of fields, parameters and results, and their written forms. A
reference type has two of them: its descriptor, and the text of a constant that
refers to it, which is the bare name for a class and the descriptor for an
array.
-/

namespace ClassText

inductive BaseType where
  | byte | char | double | float | int | long | short | boolean
deriving DecidableEq, Repr

/-- What an array is made of once all of its dimensions are stripped. -/
inductive ElementType where
  | base (type : BaseType)
  | object (name : String)
deriving DecidableEq, Repr

/-- Reference types. An array has one dimension more than `extra`. -/
inductive RefType where
  | object (name : String)
  | array (extra : Nat) (element : ElementType)
deriving DecidableEq, Repr

inductive FieldType where
  | base (type : BaseType)
  | ref (type : RefType)
deriving DecidableEq, Repr

/-- Parameters and result of a method; no result is `void`. -/
structure MethodType where
  parameters : List FieldType
  result : Option FieldType
deriving DecidableEq, Repr

namespace BaseType

def all : List BaseType := [byte, char, double, float, int, long, short, boolean]

def letter : BaseType → Char
  | byte => 'B'
  | char => 'C'
  | double => 'D'
  | float => 'F'
  | int => 'I'
  | long => 'J'
  | short => 'S'
  | boolean => 'Z'

def ofLetter? (c : Char) : Option BaseType :=
  all.find? (·.letter == c)

/-- The element type that an array instruction names by a number. -/
def ofArrayCode? (code : Nat) : Option BaseType :=
  match code with
  | 4 => some boolean
  | 5 => some char
  | 6 => some float
  | 7 => some double
  | 8 => some byte
  | 9 => some short
  | 10 => some int
  | 11 => some long
  | _ => none

def width : BaseType → Nat
  | long | double => 2
  | _ => 1

def text (t : BaseType) : String := t.letter.toString

theorem ofLetter?_letter (t : BaseType) : ofLetter? t.letter = some t := by
  cases t <;> rfl

end BaseType

def ElementType.text : ElementType → String
  | .base t => t.text
  | .object name => "L" ++ name ++ ";"

namespace RefType

def text : RefType → String
  | object name => (ElementType.object name).text
  | array extra element => String.ofList (List.replicate (extra + 1) '[') ++ element.text

/-- The text of a class constant for the type. -/
def constantText : RefType → String
  | object name => name
  | t => t.text

def arrayOf : FieldType → RefType
  | .base t => array 0 (.base t)
  | .ref (.object name) => array 0 (.object name)
  | .ref (.array extra element) => array (extra + 1) element

def component? : RefType → Option FieldType
  | object _ => none
  | array 0 (.base t) => some (.base t)
  | array 0 (.object name) => some (.ref (.object name))
  | array (extra + 1) element => some (.ref (.array extra element))

def isArray : RefType → Bool
  | object _ => false
  | array .. => true

theorem component?_arrayOf (t : FieldType) : (arrayOf t).component? = some t := by
  rcases t with t | (_ | ⟨_, _⟩) <;> rfl

end RefType

namespace FieldType

def text : FieldType → String
  | base t => t.text
  | ref t => t.text

def width : FieldType → Nat
  | base t => t.width
  | ref _ => 1

end FieldType

def MethodType.text (t : MethodType) : String :=
  "(" ++ String.join (t.parameters.map FieldType.text) ++ ")" ++
    match t.result with
    | some result => result.text
    | none => "V"

end ClassText
