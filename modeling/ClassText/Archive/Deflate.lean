import ClassText.Bytes

/-!
# Deflated bytes

Deflated bytes are a row of bits, lowest bit of each byte first, in blocks. A
block holds bytes as they are, or a row of symbols in a code by lengths: a symbol
stands for a byte, for the end of the block, or for a repetition of what came
some distance before.

Everything can be read here. What is written are blocks of bytes as they are,
which every reader knows.
-/

namespace ClassText

/-- A row of bits that are taken in turn. -/
structure BitSource where
  bytes : ByteArray
  taken : Nat

/-- Something read from a row of bits. It fails where the bits end or make no sense. -/
abbrev Inflating (α : Type) := StateT BitSource Option α

namespace Inflating

def bit : Inflating Nat := do
  let source ← get
  match source.bytes[source.taken / 8]? with
  | none => failure
  | some b =>
    set { source with taken := source.taken + 1 }
    return (b.toNat >>> (source.taken % 8)) % 2

/-- A number of so many bits, lowest bit first. -/
def number : Nat → Inflating Nat
  | 0 => return 0
  | bits + 1 => do
    let low ← bit
    return low + 2 * (← number bits)

def numbers (bits count : Nat) : Inflating (List Nat) :=
  (List.replicate count ()).mapM fun _ => number bits

def align : Inflating Unit :=
  modify fun source => { source with taken := (source.taken + 7) / 8 * 8 }

end Inflating

/-! ## Codes by lengths -/

/-- A code in which shorter words come first, and words of one length in the order of their
symbols. -/
structure LengthCode where
  counts : List Nat
  symbols : Array Nat
deriving Repr

namespace LengthCode

def maxLength : Nat := 15

/-- The code whose words have the given lengths, by symbol. Length zero stands for no word. -/
def ofLengths (lengths : List Nat) : LengthCode :=
  let byLength := (List.range maxLength).map fun n =>
    (lengths.zipIdx.filter (·.1 == n + 1)).map (·.2)
  ⟨byLength.map List.length, byLength.flatten.toArray⟩

/-- Read the rest of a word. Of the words that are one bit longer than `word`, the first is
`first`, and it stands at `index` among all. -/
def finish (symbols : Array Nat) (word first index : Nat) : List Nat → Inflating Nat
  | [] => failure
  | count :: counts => do
    let word := 2 * word + (← Inflating.bit)
    if word < first + count then
      match symbols[index + (word - first)]? with
      | some symbol => return symbol
      | none => failure
    else finish symbols word (2 * (first + count)) (index + count) counts

def symbol (code : LengthCode) : Inflating Nat :=
  finish code.symbols 0 0 0 code.counts

end LengthCode

/-! ## Blocks -/

/-- The two codes of a block: for bytes and lengths, and for distances. -/
structure BlockCodes where
  lengths : LengthCode
  distances : LengthCode

namespace BlockCodes

/-- The codes of blocks that bring none along. -/
def fixed : BlockCodes :=
  ⟨.ofLengths (List.replicate 144 8 ++ List.replicate 112 9 ++ List.replicate 24 7 ++
    List.replicate 8 8), .ofLengths (List.replicate 30 5)⟩

def lengthOrder : List Nat := [16, 17, 18, 0, 8, 7, 9, 6, 10, 5, 11, 4, 12, 3, 13, 2, 14, 1, 15]

/-- Lengths of words up to a total, which runs of equal lengths must not pass. Every symbol
gives at least one, so that `fuel` may be the total. -/
def readLengths (code : LengthCode) (total : Nat) : (fuel : Nat) → Array Nat → Inflating (Array Nat)
  | 0, done => if done.size = total then return done else failure
  | fuel + 1, done => do
    if total ≤ done.size then return ← readLengths code total 0 done
    let run (n : Nat) (length : Nat) := done ++ Array.replicate n length
    match ← code.symbol, done.back? with
    | 16, some last => readLengths code total fuel (run (3 + (← Inflating.number 2)) last)
    | 16, none => failure
    | 17, _ => readLengths code total fuel (run (3 + (← Inflating.number 3)) 0)
    | 18, _ => readLengths code total fuel (run (11 + (← Inflating.number 7)) 0)
    | length, _ => readLengths code total fuel (done.push length)

def read : Inflating BlockCodes := do
  let lengths := 257 + (← Inflating.number 5)
  let distances := 1 + (← Inflating.number 5)
  let given := lengthOrder.zip (← Inflating.numbers 3 (4 + (← Inflating.number 4)))
  let code := LengthCode.ofLengths ((List.range 19).map fun n => (given.lookup n).getD 0)
  let total := lengths + distances
  let all ← readLengths code total total #[]
  return ⟨.ofLengths (all.toList.take lengths), .ofLengths (all.toList.drop lengths)⟩

end BlockCodes

namespace Inflating

/-- The least length for each symbol, and the bits that say how much is added to it. -/
def lengthSteps : List (Nat × Nat) :=
  [(3, 0), (4, 0), (5, 0), (6, 0), (7, 0), (8, 0), (9, 0), (10, 0), (11, 1), (13, 1), (15, 1),
    (17, 1), (19, 2), (23, 2), (27, 2), (31, 2), (35, 3), (43, 3), (51, 3), (59, 3), (67, 4),
    (83, 4), (99, 4), (115, 4), (131, 5), (163, 5), (195, 5), (227, 5), (258, 0)]

def distanceSteps : List (Nat × Nat) :=
  (1, 0) :: (2, 0) :: (List.range 28).map fun n =>
    let bits := n / 2
    (1 + ((2 + n % 2) <<< bits), bits)

def stepped (steps : List (Nat × Nat)) (symbol : Nat) : Inflating Nat := do
  match steps[symbol]? with
  | some (least, bits) => return least + (← number bits)
  | none => failure

def repeated (distance : Nat) : (length : Nat) → ByteArray → ByteArray
  | 0, done => done
  | length + 1, done =>
    repeated distance length (done.push (done[done.size - distance]?.getD 0))

/-- The symbols of a block up to its end. Every symbol takes a bit, so that `fuel` may be
their number. -/
def symbols (codes : BlockCodes) : (fuel : Nat) → ByteArray → Inflating ByteArray
  | 0, _ => failure
  | fuel + 1, done => do
    let symbol ← codes.lengths.symbol
    if symbol < 256 then symbols codes fuel (done.push (.ofNat symbol))
    else if symbol = 256 then return done
    else
      let length ← stepped lengthSteps (symbol - 257)
      let distance ← stepped distanceSteps (← codes.distances.symbol)
      if done.size < distance then failure
      symbols codes fuel (repeated distance length done)

def plain (done : ByteArray) : Inflating ByteArray := do
  align
  let length ← number 16
  if length + (← number 16) ≠ 65535 then failure
  let source ← get
  let start := source.taken / 8
  if source.bytes.size < start + length then failure
  set { source with taken := source.taken + 8 * length }
  return done ++ source.bytes.extract start (start + length)

/-- Blocks up to the last one. Every block takes a bit, so that `fuel` may be their number. -/
def blocks (bits : Nat) : (fuel : Nat) → ByteArray → Inflating ByteArray
  | 0, _ => failure
  | fuel + 1, done => do
    let last ← bit
    let done ← match ← number 2 with
      | 0 => plain done
      | 1 => symbols .fixed bits done
      | 2 => symbols (← BlockCodes.read) bits done
      | _ => failure
    if last = 1 then return done else blocks bits fuel done

end Inflating

namespace Deflate

def inflate? (deflated : ByteArray) : Option ByteArray :=
  let bits := 8 * deflated.size
  (Inflating.blocks bits bits .empty).run' ⟨deflated, 0⟩

def word16 (n : Nat) : ByteArray := ⟨#[.ofNat (n % 256), .ofNat (n / 256 % 256)]⟩

def blockSize : Nat := 65535

def plainBlock (last : Bool) (bytes : ByteArray) : ByteArray :=
  ⟨#[if last then 1 else 0]⟩ ++ word16 bytes.size ++ word16 (blockSize - bytes.size) ++ bytes

/-- Deflated bytes that hold the given ones. -/
def ofBytes (bytes : ByteArray) : ByteArray :=
  let before := (bytes.size - 1) / blockSize
  (List.range (before + 1)).foldl (fun done n =>
    done ++ plainBlock (n == before) (bytes.extract (n * blockSize) ((n + 1) * blockSize))) .empty

end Deflate

end ClassText
