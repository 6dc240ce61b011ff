import ClassText.Frame.Flow
import ClassText.Frame.Stored

/-!
# The frames of a method

From the code of a method alone, the frames that its class file has to hold are
derived again: the method is followed until its frames settle, and the frames
at the places that need one become a table.
-/

namespace ClassText

/-- A method whose frames are derived. -/
structure MethodHead where
  thisClass : String
  name : String
  descriptor : String
  isStatic : Bool
deriving DecidableEq, Repr

structure Analysis where
  entry : LiveFrame
  /-- The blocks and the frames at their beginnings, in order. -/
  frames : List (Block × LiveFrame)
  maxStack : Nat
deriving Repr

namespace Analysis

def maxLocals (a : Analysis) : Nat := a.entry.locals.length

/-- The type of the exceptions that a handler catches. -/
def catchType (pool : ConstantPool) (handler : Handler) : Except FlowFault RefType :=
  match handler.catchType with
  | none => .ok (.object ClassName.throwable)
  | some index =>
    match FrameTable.classAt? pool index with
    | some type => .ok type
    | none => .error ⟨none, .missingConstant index⟩

def classNames (types : List RefType) : List String :=
  types.filterMap fun
    | .object name => some name
    | .array .. => none

/-- The entry frame of a method whose code can be followed. -/
def entryOf (code : Code) (method : MethodHead) : Except FlowFault LiveFrame := do
  match code.instructions.findIdx? (·.isSubroutine) with
  | some label => throw ⟨some label, .subroutine⟩
  | none =>
    match MethodType.parse method.descriptor with
    | .error _ => throw ⟨none, .badDescriptor method.descriptor⟩
    | .ok type =>
      return LiveFrame.entry method.thisClass method.name method.isStatic type
        code.maxLocals.toNat

def flowOf (code : Code) (method : MethodHead) (pool : ConstantPool) (hierarchy : Hierarchy)
    (entry : LiveFrame) : Except FlowFault Flow := do
  let types ← code.handlers.mapM (catchType pool)
  return {
    context := ⟨pool, method.thisClass, code.instructions⟩
    ancestry := ⟨hierarchy, classNames types⟩
    handlers := code.handlers.zip types
    recorded := code.recordedFrames pool entry
    blocks := code.blocks }

/-- The frames of all blocks. Every block has to be reached. -/
def blockFrames (blocks : List Block) (state : FlowState) :
    Except FlowFault (List (Block × LiveFrame)) :=
  blocks.mapM fun block =>
    match state.frame? block.start with
    | some frame => .ok (block, frame)
    | none => .error ⟨some block.start, .unreachable⟩

/-- Follow a method until its frames settle. -/
def ofCode (code : Code) (method : MethodHead) (pool : ConstantPool) (hierarchy : Hierarchy) :
    Except FlowFault Analysis := do
  let entry ← entryOf code method
  let flow ← flowOf code method pool hierarchy entry
  let state ← flow.loop (flow.start entry)
  return ⟨entry, ← blockFrames flow.blocks state, state.maxStack⟩

end Analysis

namespace Code

/-- Labels at which a class file must hold a frame because of an instruction: its targets, and
the next instruction unless control goes on to there. -/
def frameLabelsOf (insn : Instruction) (label : Label) : List Label :=
  if insn.fallsThrough then insn.targets else (label + 1) :: insn.targets

def frameLabels (code : Code) : List Label :=
  (code.instructions.toList.zipIdx.flatMap fun (insn, label) => frameLabelsOf insn label) ++
    code.handlers.map (·.target)

/-- The frames that a class file must hold. -/
def neededFrames (code : Code) (frames : List (Block × LiveFrame)) : List (Label × LiveFrame) :=
  let needed := marked code.instructions.size code.frameLabels
  (frames.filter fun (block, _) => needed.getD block.start false).map fun (block, frame) =>
    (block.start, frame)

def frameError (code : Code) (method : MethodHead) (e : FlowFault) : ClassError :=
  .frames (method.name ++ method.descriptor) (e.label.bind (code.sourceOffsets[·]?)) e.fault

/-- What is known of the method, and the table of frames that follows from it. -/
def deriveTable (code : Code) (method : MethodHead) (hierarchy : Hierarchy) :
    PoolChange (Analysis × FrameTable) := do
  let pool ← get
  let analysis ← PoolChange.ofExcept <|
    (Analysis.ofCode code method pool hierarchy).mapError (code.frameError method)
  let offsets ← PoolChange.ofExcept <|
    (Assembled.layout code.instructions).mapError .assembly
  let table ← FrameTable.ofFrames offsets analysis.entry (code.neededFrames analysis.frames)
  return (analysis, table)

/-- The code with limits that are large enough for the stack and for the variables. -/
def raiseLimits (code : Code) (analysis : Analysis) : Code :=
  { code with
    maxStack := max code.maxStack (.ofNat analysis.maxStack)
    maxLocals := max code.maxLocals (.ofNat analysis.maxLocals) }

end Code

namespace CodeChange

/-- Raise the limits where that is necessary, and put in the table of frames that follows from
the instructions. -/
def deriveFrames (method : MethodHead) (hierarchy : Hierarchy) : CodeChange Unit := do
  let (code, _) ← get
  let (analysis, table) ← ofPool (code.deriveTable method hierarchy)
  modify fun (code, pool) => (code.raiseLimits analysis, pool)
  setFrames table

end CodeChange

end ClassText
