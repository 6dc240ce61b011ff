/-!
# Access flags

Sixteen bits with names for some of them. Bits without a name are carried
along.
-/

namespace ClassText

abbrev Flags := UInt16

namespace Flags

def has (flags bit : Flags) : Bool :=
  flags &&& bit != 0

def isStatic (flags : Flags) : Bool := flags.has 0x0008

def isInterface (flags : Flags) : Bool := flags.has 0x0200

def ofClass : List (String × Flags) := [
  ("PUBLIC", 0x0001), ("FINAL", 0x0010), ("SUPER", 0x0020), ("INTERFACE", 0x0200),
  ("ABSTRACT", 0x0400), ("SYNTHETIC", 0x1000), ("ANNOTATION", 0x2000), ("ENUM", 0x4000),
  ("MODULE", 0x8000)]

def ofMethod : List (String × Flags) := [
  ("PUBLIC", 0x0001), ("PRIVATE", 0x0002), ("PROTECTED", 0x0004), ("STATIC", 0x0008),
  ("FINAL", 0x0010), ("SYNCHRONIZED", 0x0020), ("BRIDGE", 0x0040), ("VARARGS", 0x0080),
  ("NATIVE", 0x0100), ("ABSTRACT", 0x0400), ("STRICT", 0x0800), ("SYNTHETIC", 0x1000)]

def ofField : List (String × Flags) := [
  ("PUBLIC", 0x0001), ("PRIVATE", 0x0002), ("PROTECTED", 0x0004), ("STATIC", 0x0008),
  ("FINAL", 0x0010), ("VOLATILE", 0x0040), ("TRANSIENT", 0x0080), ("SYNTHETIC", 0x1000),
  ("ENUM", 0x4000)]

/-- The names of the flags that are set, in the order of the table. -/
def names (table : List (String × Flags)) (flags : Flags) : List String :=
  (table.filter fun entry => flags.has entry.2).map (·.1)

end Flags

end ClassText
