import ClassText.Fault

/-!
# Writing lists

Writing gives bytes, or a reason why something cannot be written. A list is
written after its length, which has sixteen bits.
-/

namespace ClassText

/-- The bytes of something, or why it has none. -/
abbrev Written := Except WriteFault Bytes

namespace Written

def concat {α : Type} (write : α → Written) (items : List α) : Written := do
  let parts ← items.mapM write
  return parts.flatten

/-- The length of the list, and its items. A list of more than 65535 items is refused. -/
def counted {α : Type} (write : α → Written) (items : List α) : Written := do
  if 65535 < items.length then throw (.tooMany items.length)
  let body ← concat write items
  return Bytes.word16 (.ofNat items.length) ++ body

/-- The length of the list cut to sixteen bits, and its items. -/
def truncated {α : Type} (write : α → Written) (items : List α) : Written := do
  let body ← concat write items
  return Bytes.word16 (.ofNat items.length) ++ body

/-- The length of some bytes in thirty-two bits, and the bytes. -/
def block (bytes : Bytes) : Bytes :=
  Bytes.word32 (.ofNat bytes.length) ++ bytes

end Written

end ClassText
