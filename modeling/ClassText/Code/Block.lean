import ClassText.Code

/-!
# Basic blocks

Code is cut into blocks: control enters a block at its first instruction only,
and leaves it after its last one only, except by an exception. A block lies
entirely inside or entirely outside the range of each handler.
-/

namespace ClassText

/-- The instructions from `start` on, up to `stop` and without it. -/
structure Block where
  start : Label
  stop : Label
deriving DecidableEq, Repr, Inhabited

namespace Block

def labels (b : Block) : List Label :=
  List.range' b.start (b.stop - b.start)

def last (b : Block) : Label := b.stop - 1

end Block

namespace Code

/-- Labels at which a block must begin because of an instruction: its targets, and the label
after it unless control only ever goes on to there. -/
def boundariesOf (insn : Instruction) (label : Label) : List Label :=
  if insn.targets.isEmpty && insn.fallsThrough then []
  else (label + 1) :: insn.targets

def boundaries (code : Code) : List Label :=
  0 :: (code.instructions.toList.zipIdx.flatMap fun (insn, label) => boundariesOf insn label) ++
    code.handlers.flatMap fun h => [h.start, h.stop, h.target]

/-- Which of the first `count` labels are among these? -/
def marked (count : Nat) (labels : List Label) : Array Bool :=
  labels.foldl (fun marks label => marks.setIfInBounds label true) (Array.replicate count false)

def blockStarts (code : Code) : List Label :=
  let marks := marked code.instructions.size code.boundaries
  (List.range code.instructions.size).filter fun label => marks.getD label false

/-- The blocks that begin at these labels, the last one ending where the code ends. -/
def blocksFrom (starts : List Label) (count : Nat) : List Block :=
  List.zipWith Block.mk starts (starts.drop 1 ++ [count])

def blocks (code : Code) : List Block :=
  blocksFrom code.blockStarts code.instructions.size

end Code

end ClassText
