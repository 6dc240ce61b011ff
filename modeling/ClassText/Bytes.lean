/-!
# Bytes

A byte string is a list of bytes, and a number in a class file is written with
its most significant byte first.
-/

namespace ClassText

abbrev Bytes := List UInt8

namespace Bytes

def word16 (v : UInt16) : Bytes :=
  [.ofNat (v.toNat / 256), .ofNat (v.toNat % 256)]

def word32 (v : UInt32) : Bytes :=
  word16 (.ofNat (v.toNat / 65536)) ++ word16 (.ofNat (v.toNat % 65536))

def word64 (v : UInt64) : Bytes :=
  word32 (.ofNat (v.toNat / 4294967296)) ++ word32 (.ofNat (v.toNat % 4294967296))

theorem length_word16 (v : UInt16) : (word16 v).length = 2 := rfl

theorem length_word32 (v : UInt32) : (word32 v).length = 4 := rfl

theorem length_word64 (v : UInt64) : (word64 v).length = 8 := rfl

end Bytes

end ClassText
