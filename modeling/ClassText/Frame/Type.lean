import ClassText.Descriptor
import ClassText.Instruction

/-!
# Verification types

What is known about a value on the stack or in a local variable. There are two
views of the same types. While a method is followed, classes have their names
and an object that is still uninitialized is known by the label of the `new`
that made it. In a class file, classes are indices into the constant pool and
such an object is known by the offset of its `new`.
-/

namespace ClassText

/-- The type of a value, with classes `κ` and places of creation `υ`. -/
inductive VerificationType (κ υ : Type) where
  /-- No usable value; also the second slot of a value of width two. -/
  | top
  | integer
  | float
  | double
  | long
  | null
  /-- The receiver of a constructor that has not called another one yet. -/
  | uninitializedThis
  | object (type : κ)
  /-- A new object whose constructor has not been called yet. -/
  | uninitialized (site : υ)
deriving DecidableEq, Repr

/-- A type while a method is followed. -/
abbrev LiveType := VerificationType RefType Label

/-- A type in a class file. -/
abbrev StoredType := VerificationType PoolIndex UInt16

namespace VerificationType

variable {κ υ : Type}

instance : Inhabited (VerificationType κ υ) := ⟨top⟩

def width : VerificationType κ υ → Nat
  | double | long => 2
  | _ => 1

def isReference : VerificationType κ υ → Bool
  | null | uninitializedThis | object _ | uninitialized _ => true
  | _ => false

/-- Replace classes and places of creation, with an effect for each. -/
def mapM {κ' υ' : Type} {m : Type → Type} [Monad m] (f : κ → m κ') (g : υ → m υ') :
    VerificationType κ υ → m (VerificationType κ' υ')
  | top => return top
  | integer => return integer
  | float => return float
  | double => return double
  | long => return long
  | null => return null
  | uninitializedThis => return uninitializedThis
  | object type => return object (← f type)
  | uninitialized site => return uninitialized (← g site)

theorem width_pos (t : VerificationType κ υ) : 0 < t.width := by
  cases t <;> simp [width]

theorem width_le_two (t : VerificationType κ υ) : t.width ≤ 2 := by
  cases t <;> simp [width]

theorem width_eq_one_of_isReference {t : VerificationType κ υ} (h : t.isReference = true) :
    t.width = 1 := by
  cases t <;> simp_all [width, isReference]

end VerificationType

namespace LiveType

/-- The type of a value from a field, a parameter or a result. Small numbers and truth values
are integers. -/
def ofField : FieldType → LiveType
  | .base .float => .float
  | .base .long => .long
  | .base .double => .double
  | .base _ => .integer
  | .ref type => .object type

def ofClass (name : String) : LiveType := .object (.object name)

theorem width_ofField (t : FieldType) : (ofField t).width = t.width := by
  rcases t with t | t
  · cases t <;> rfl
  · rfl

end LiveType

end ClassText
