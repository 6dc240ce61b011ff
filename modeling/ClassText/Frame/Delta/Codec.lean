import ClassText.Bytes.Reader
import ClassText.Bytes.Writer
import ClassText.Frame.Delta

/-!
# Tables of frames as bytes

A difference begins with a tag, which for the shortest forms holds the offset
as well. Stacks are written from the bottom to the top.
-/

namespace ClassText

open Bytes

namespace StoredType

def tag : StoredType → UInt8
  | .top => 0
  | .integer => 1
  | .float => 2
  | .double => 3
  | .long => 4
  | .null => 5
  | .uninitializedThis => 6
  | .object _ => 7
  | .uninitialized _ => 8

def write (t : StoredType) : Bytes :=
  tag t :: match t with
    | .object type => word16 type
    | .uninitialized site => word16 site
    | _ => []

def read : ByteReader StoredType := do
  let tag ← .byte
  match tag.toNat with
  | 0 => return .top
  | 1 => return .integer
  | 2 => return .float
  | 3 => return .double
  | 4 => return .long
  | 5 => return .null
  | 6 => return .uninitializedThis
  | 7 => return .object (← .word16)
  | 8 => return .uninitialized (← .word16)
  | _ => .fail (.malformed (.unknownTypeTag tag))

def writeAll (types : List StoredType) : Written :=
  Written.counted (fun t => .ok (write t)) types

def readAll : ByteReader (List StoredType) := ByteReader.counted read

end StoredType

namespace FrameTable

/-- A frame that changes no more than one value is written with a small offset in its tag, or
with a larger one after another tag. -/
def writeTagged (base extended : Nat) (offset : UInt16) : Bytes :=
  if offset.toNat ≤ 63 then [.ofNat (base + offset.toNat)]
  else .ofNat extended :: word16 offset

def writeDelta : FrameDelta PoolIndex UInt16 → Written
  | .same offset => .ok (writeTagged 0 251 offset)
  | .sameOne offset value => .ok (writeTagged 64 247 offset ++ StoredType.write value)
  | .chop offset count =>
    if 1 ≤ count ∧ count ≤ 3 then .ok (.ofNat (251 - count) :: word16 offset)
    else .error (.chop count)
  | .append offset locals =>
    if 1 ≤ locals.length ∧ locals.length ≤ 3 then
      .ok (.ofNat (251 + locals.length) :: word16 offset ++ locals.flatMap StoredType.write)
    else .error (.append locals.length)
  | .full offset frame => do
    let locals ← StoredType.writeAll frame.locals
    let stack ← StoredType.writeAll frame.stack.reverse
    return 255 :: word16 offset ++ locals ++ stack

def readTagged (tag : Nat) : ByteReader (FrameDelta PoolIndex UInt16) := do
  if tag ≤ 63 then return .same (.ofNat tag)
  else if tag ≤ 127 then return .sameOne (.ofNat (tag - 64)) (← StoredType.read)
  else if tag < 247 then .fail (.malformed (.reservedFrame (.ofNat tag)))
  else
    let offset ← .word16
    if tag = 247 then return .sameOne offset (← StoredType.read)
    else if tag < 251 then return .chop offset (251 - tag)
    else if tag = 251 then return .same offset
    else if tag < 255 then return .append offset (← .times (tag - 251) StoredType.read)
    else
      let locals ← StoredType.readAll
      let stack ← StoredType.readAll
      return .full offset ⟨locals, stack.reverse⟩

def readDelta : ByteReader (FrameDelta PoolIndex UInt16) := do
  readTagged (← .byte).toNat

def write (table : FrameTable) : Written := Written.counted writeDelta table

def read : ByteReader FrameTable := ByteReader.counted readDelta

end FrameTable

end ClassText
