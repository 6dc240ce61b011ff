import ClassText.Code.Codec
import ClassText.Descriptor.Parser

/-!
# Frames in class files

Frames become packed, with indices for classes and offsets for labels, and each
is written as its difference from the one before it; the first one differs from
the frame with which the method begins. Reading goes the other way. A table
that cannot be read is as good as none.
-/

namespace ClassText

namespace LiveFrame

/-- The type in a class file. A class that has no constant yet gets one. -/
def storeType (offsets : Array Nat) (t : LiveType) : PoolChange StoredType :=
  t.mapM (fun type => PoolChange.internClass type.constantText)
    fun site => return .ofNat (offsets.getD site 0)

/-- The frame in a class file, given the offsets of all labels. Classes get their constants in
the order of the variables and then of the stack, upwards. -/
def stored (offsets : Array Nat) (frame : LiveFrame) : PoolChange StoredFrame := do
  let packed := frame.pack
  let locals ← packed.locals.mapM (storeType offsets)
  let stack ← packed.stack.reverse.mapM (storeType offsets)
  return ⟨locals, stack.reverse⟩

end LiveFrame

namespace FrameTable

/-- A table that is being made: the frame before, the least offset of the next frame, and the
differences so far in reverse. -/
structure Draft where
  previous : StoredFrame
  next : Nat
  deltas : FrameTable
deriving Repr

def Draft.add (offsets : Array Nat) (draft : Draft) (entry : Label × LiveFrame) :
    PoolChange Draft := do
  let offset := offsets.getD entry.1 0
  let frame ← entry.2.stored offsets
  let delta := frame.deltaFrom draft.previous (.ofNat (offset - draft.next))
  return ⟨frame, offset + 1, delta :: draft.deltas⟩

/-- The table of the frames at some labels, in ascending order, of a method with this entry. -/
def ofFrames (offsets : Array Nat) (entry : LiveFrame) (frames : List (Label × LiveFrame)) :
    PoolChange FrameTable := do
  let draft ← frames.foldlM (Draft.add offsets) ⟨← entry.stored offsets, 0, []⟩
  return draft.deltas.reverse

def classAt? (pool : ConstantPool) (index : PoolIndex) : Option RefType := do
  let name ← (pool.className index).toOption
  (RefType.ofConstantText name).toOption

/-- Frames that are being read: the packed frame before, the least offset of the next frame,
and the frames so far in reverse, spread out. -/
structure Reading where
  previous : LiveFrame
  next : Nat
  frames : List (Label × LiveFrame)
deriving Repr

def Reading.add? (pool : ConstantPool) (offsets : Array Nat) (reading : Reading)
    (delta : FrameDelta PoolIndex UInt16) : Option Reading := do
  let delta ← delta.mapM (classAt? pool) fun site => Decoded.startAt? offsets site.toNat
  let frame ← reading.previous.after? delta
  let offset := reading.next + delta.offset.toNat
  let label ← Decoded.startAt? offsets offset
  return ⟨frame, offset + 1, (label, frame.spread) :: reading.frames⟩

def frames? (pool : ConstantPool) (offsets : Array Nat) (entry : LiveFrame)
    (table : FrameTable) : Option (List (Label × LiveFrame)) := do
  let reading ← table.foldlM (Reading.add? pool offsets) ⟨entry.pack, 0, []⟩
  return reading.frames.reverse

end FrameTable

namespace Code

/-- The table of frames that the code carries, empty if there is none, missing if it cannot be
read. -/
def frameTable? (code : Code) (pool : ConstantPool) : Option FrameTable :=
  match code.attribute? pool CodeAttribute.frameTable with
  | some ⟨_, .frames table⟩ => some table
  | some ⟨_, .raw bytes⟩ => (FrameTable.read.run bytes).toOption.map (·.1)
  | _ => some []

/-- The frames that the code carries. There are none if they cannot be read. -/
def recordedFrames (code : Code) (pool : ConstantPool) (entry : LiveFrame) :
    List (Label × LiveFrame) :=
  ((code.frameTable? pool).bind (FrameTable.frames? pool code.sourceOffsets entry)).getD []

end Code

end ClassText
