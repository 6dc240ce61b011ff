import ClassText.Archive
import ClassText.Archive.Checksum
import ClassText.Archive.Deflate

/-!
# The bytes of an archive

The contents of the entries come first, each behind a header of its own. Behind
them all stands a directory with a record for every entry, and at the end a
record that tells where the directory is. Reading goes by the directory.
Numbers are written with their least significant byte first.
-/

namespace ClassText

namespace Archive

structure DirectoryRecord where
  name : ByteArray
  isDeflated : Bool
  checksum : Nat
  packedSize : Nat
  size : Nat
  /-- Where the header of the entry begins. -/
  offset : Nat

/-! ## Reading -/

def numberAt? (bytes : ByteArray) (offset : Nat) : (width : Nat) → Option Nat
  | 0 => some 0
  | width + 1 => do
    let high ← numberAt? bytes (offset + 1) width
    let low ← bytes[offset]?
    return low.toNat + 256 * high

def sliceAt? (bytes : ByteArray) (offset size : Nat) : Option ByteArray :=
  if offset + size ≤ bytes.size then some (bytes.extract offset (offset + size)) else none

def headerMark : Nat := 0x04034b50

def recordMark : Nat := 0x02014b50

def endMark : Nat := 0x06054b50

/-- The size of the record at the end, without a comment. -/
def endSize : Nat := 22

/-- The last place, from an offset downwards, at which a record can be the end. -/
def findEnd? (bytes : ByteArray) : (offset : Nat) → Option Nat
  | 0 => none
  | offset + 1 =>
    let ends : Bool := numberAt? bytes offset 4 == some endMark &&
      (numberAt? bytes (offset + 20) 2).any fun comment =>
        offset + endSize + comment == bytes.size
    if ends then some offset else findEnd? bytes offset

/-- The record at an offset, and where the next one is. -/
def recordAt? (bytes : ByteArray) (offset : Nat) : Option (DirectoryRecord × Nat) := do
  if (← numberAt? bytes offset 4) ≠ recordMark then none
  let method ← numberAt? bytes (offset + 10) 2
  if method ≠ 0 ∧ method ≠ 8 then none
  if (← numberAt? bytes (offset + 8) 2) % 2 = 1 then none
  let nameSize ← numberAt? bytes (offset + 28) 2
  let moreSize := (← numberAt? bytes (offset + 30) 2) + (← numberAt? bytes (offset + 32) 2)
  let entry := {
    name := ← sliceAt? bytes (offset + 46) nameSize
    isDeflated := method == 8
    checksum := ← numberAt? bytes (offset + 16) 4
    packedSize := ← numberAt? bytes (offset + 20) 4
    size := ← numberAt? bytes (offset + 24) 4
    offset := ← numberAt? bytes (offset + 42) 4 }
  return (entry, offset + 46 + nameSize + moreSize)

def recordsAt? (bytes : ByteArray) : (offset count : Nat) → Option (List DirectoryRecord)
  | _, 0 => some []
  | offset, count + 1 => do
    let (entry, next) ← recordAt? bytes offset
    return entry :: (← recordsAt? bytes next count)

/-- Of several records with one name the last counts, at the place of the first. -/
def withoutRepetition (records : List DirectoryRecord) : List DirectoryRecord :=
  records.foldl
    (fun kept record =>
      if kept.any (·.name == record.name) then
        kept.map fun old => if old.name == record.name then record else old
      else kept ++ [record]) []

/-- The contents of an entry, as they are or inflated. Size and checksum have to be right. -/
def contentsOf? (bytes : ByteArray) (entry : DirectoryRecord) : Option Bytes := do
  if (← numberAt? bytes entry.offset 4) ≠ headerMark then none
  let nameSize ← numberAt? bytes (entry.offset + 26) 2
  let moreSize ← numberAt? bytes (entry.offset + 28) 2
  let packed ← sliceAt? bytes (entry.offset + 30 + nameSize + moreSize) entry.packedSize
  let contents := (← if entry.isDeflated then Deflate.inflate? packed else some packed).toList
  if contents.length = entry.size ∧ (Checksum.ofBytes contents).toNat = entry.checksum then
    return contents
  else none

def entryOf? (bytes : ByteArray) (entry : DirectoryRecord) : Option Entry := do
  let name ← String.fromUTF8? entry.name
  return ⟨name, Entry.namesDirectory name, ← contentsOf? bytes entry, !entry.isDeflated⟩

/-- The entries of an archive, in the order of its directory. -/
def read (bytes : ByteArray) : Except ArchiveFault (List Entry) :=
  let entries? := do
    let last ← findEnd? bytes (bytes.size + 1 - endSize)
    let count ← numberAt? bytes (last + 10) 2
    let directory ← numberAt? bytes (last + 16) 4
    (withoutRepetition (← recordsAt? bytes directory count)).mapM (entryOf? bytes)
  match entries? with
  | some entries => .ok entries
  | none => .error .notArchive

/-! ## Writing -/

def numberBytes (n : Nat) : (width : Nat) → Bytes
  | 0 => []
  | width + 1 => .ofNat (n % 256) :: numberBytes (n / 256) width

/-- Numbers with their widths, one behind the other. -/
def fields (items : List (Nat × Nat)) : ByteArray :=
  ⟨(items.flatMap fun (width, n) => numberBytes n width).toArray⟩

/-- The version of the format, the marks for a name in Unicode, the method, and the first day
on which an archive can be made. -/
def commonFields (entry : DirectoryRecord) : List (Nat × Nat) :=
  [(2, 20), (2, 0x0800), (2, if entry.isDeflated then 8 else 0), (2, 0), (2, 0x21),
    (4, entry.checksum), (4, entry.packedSize), (4, entry.size), (2, entry.name.size), (2, 0)]

def headerBytes (entry : DirectoryRecord) : ByteArray :=
  fields ((4, headerMark) :: commonFields entry) ++ entry.name

def recordBytes (entry : DirectoryRecord) : ByteArray :=
  fields ((4, recordMark) :: (2, 20) :: commonFields entry ++
    [(2, 0), (2, 0), (2, 0), (4, 0), (4, entry.offset)]) ++ entry.name

def endBytes (count size offset : Nat) : ByteArray :=
  fields [(4, endMark), (2, 0), (2, 0), (2, count), (2, count), (4, size), (4, offset), (2, 0)]

/-- The record and the packed contents of an entry whose header begins at an offset. -/
def pack (offset : Nat) (e : Entry) : DirectoryRecord × ByteArray :=
  let contents : ByteArray := ⟨e.bytes.toArray⟩
  let packed := if e.stored then contents else Deflate.ofBytes contents
  (⟨e.name.toUTF8, !e.stored, (Checksum.ofBytes e.bytes).toNat, packed.size, contents.size,
    offset⟩, packed)

def packAll (written directory : ByteArray) : List Entry → ByteArray × ByteArray
  | [] => (written, directory)
  | e :: rest =>
    let (entry, packed) := pack written.size e
    packAll (written ++ headerBytes entry ++ packed) (directory ++ recordBytes entry) rest

/-- The bytes of an archive in which every name stands once. -/
def write (entries : List Entry) : Except ArchiveFault ByteArray := do
  let entries ← ofEntries entries
  let (contents, directory) := packAll .empty .empty entries
  let fits : Bool := entries.all (·.name.utf8ByteSize < 65536) && entries.length < 65536 &&
    contents.size + directory.size < 4294967296
  if fits then return contents ++ directory ++ endBytes entries.length directory.size contents.size
  else throw .tooLarge

end Archive

end ClassText
