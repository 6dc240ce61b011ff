import ClassText.Bytes.Reader
import ClassText.Bytes.Writer

/-!
# Attributes

Classes, fields, methods and code carry attributes: a name, the number of bytes
that follow, and these bytes. What they mean depends on the name and on where
the attribute stands.
-/

namespace ClassText

structure Attribute (β : Type) where
  name : PoolIndex
  body : β
deriving DecidableEq, Repr

namespace Attribute

variable {β : Type}

/-- An attribute, with its bytes understood by `body`. -/
def read (body : PoolIndex → Bytes → Except ClassError β) : ByteReader (Attribute β) := do
  let name ← .word16
  let length ← .word32
  let bytes ← .take length.toNat
  return ⟨name, ← .ofExcept (body name bytes)⟩

def write (body : β → Written) (a : Attribute β) : Written := do
  return Bytes.word16 a.name ++ Written.block (← body a.body)

end Attribute

end ClassText
