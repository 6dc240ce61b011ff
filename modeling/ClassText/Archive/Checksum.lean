import ClassText.Bytes

/-!
# Checksums

The cyclic redundancy check of thirty-two bits by which an archive tells whether
the contents of an entry are still what they were: the remainder of the bytes,
read as a polynomial over two elements, with the lowest bit first.
-/

namespace ClassText

namespace Checksum

def divideBit (rest : UInt32) : UInt32 :=
  if rest % 2 = 1 then (rest >>> 1) ^^^ 0xedb88320 else rest >>> 1

def table : Array UInt32 :=
  (Array.range 256).map fun n => (List.range 8).foldl (fun rest _ => divideBit rest) (.ofNat n)

def divideByte (rest : UInt32) (b : UInt8) : UInt32 :=
  table.getD ((rest ^^^ b.toUInt32) % 256).toNat 0 ^^^ (rest >>> 8)

def ofBytes (bytes : Bytes) : UInt32 :=
  bytes.foldl divideByte 0xffffffff ^^^ 0xffffffff

end Checksum

end ClassText
