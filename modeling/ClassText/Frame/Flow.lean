import ClassText.Code.Block
import ClassText.Frame.Execution
import ClassText.Frame.Merge

/-!
# The flow of frames through a method

Every block has the frame that covers all paths to its beginning. To find these
frames, blocks are followed one after the other, always the first one whose
frame is new: what comes out at its end flows into the blocks after it, and
what holds before and after its instructions flows into the handlers that guard
them. When no block has a new frame, the frames have settled.

Not all methods settle. Types get less precise from merge to merge, with one
exception: where a gap in the hierarchy hides the common superclass, a recorded
type takes its place, and that one can be below the types before it. Such a
method is followed for ever.
-/

namespace ClassText

/-- What goes wrong in a method, and where that shows. -/
structure FlowFault where
  label : Option Label
  fault : FrameFault
deriving DecidableEq, Repr

/-- A method through which frames flow. -/
structure Flow where
  context : MethodContext
  ancestry : Ancestry
  handlers : List (Handler × RefType)
  recorded : List (Label × LiveFrame)
  blocks : List Block
deriving DecidableEq, Repr

/-- What is known so far. -/
structure FlowState where
  /-- The frame at each label where a block begins that was reached. -/
  frames : Array (Option LiveFrame)
  /-- The labels of blocks that have to be followed, in ascending order. -/
  pending : List Label
  maxStack : Nat
deriving DecidableEq, Repr

namespace FlowState

def frame? (state : FlowState) (label : Label) : Option LiveFrame :=
  state.frames[label]?.join

/-- Put a label where it belongs in ascending order, once. -/
def insertPending (label : Label) : List Label → List Label
  | [] => [label]
  | first :: rest =>
    if label < first then label :: first :: rest
    else if label = first then first :: rest
    else first :: insertPending label rest

/-- Set the frame of a block, which has to be followed then. -/
def update (state : FlowState) (label : Label) (frame : LiveFrame) : FlowState :=
  { state with
    frames := state.frames.setIfInBounds label (some frame)
    pending := insertPending label state.pending }

def measure (state : FlowState) (frame : LiveFrame) : FlowState :=
  { state with maxStack := max state.maxStack frame.stackSize }

end FlowState

namespace Flow

variable (flow : Flow)

/-- Before anything is followed: the first block has the entry frame. -/
def start (entry : LiveFrame) : FlowState :=
  let frames := Array.replicate flow.context.instructions.size none
  if flow.blocks.isEmpty then ⟨frames, [], 0⟩ else ⟨frames.setIfInBounds 0 (some entry), [0], 0⟩

def blockAt? (label : Label) : Option Block :=
  flow.blocks.find? (·.start == label)

def recordedAt? (label : Label) : Option LiveFrame :=
  (flow.recorded.find? (·.1 == label)).map (·.2)

/-- Let a frame flow into the block at a label. -/
def propagate (state : FlowState) (target : Label) (frame : LiveFrame) :
    Except FrameFault FlowState := do
  match flow.blockAt? target with
  | none => throw .badIndex
  | some _ =>
    match state.frame? target with
    | none => return state.update target frame
    | some known =>
      let merged ← flow.ancestry.mergeFrames known frame (flow.recordedAt? target)
      return if merged = known then state else state.update target merged

/-- The handlers that guard an instruction. -/
def covering (label : Label) : List (Handler × RefType) :=
  flow.handlers.filter fun (h, _) => h.start ≤ label ∧ label < h.stop

def propagateCaught (handlers : List (Handler × RefType)) (state : FlowState)
    (frame : LiveFrame) : Except FrameFault FlowState :=
  handlers.foldlM (fun state (h, type) => flow.propagate state h.target (frame.caught type)) state

/-- Does the instruction belong to those whose variables handlers see also afterwards? -/
def writesSlot : Instruction → Bool
  | .slot .. | .increment .. => true
  | _ => false

/-- Follow the instruction at a label. -/
def followOne (state : FlowState) (frame : LiveFrame) (label : Label) :
    Except FrameFault (FlowState × LiveFrame) := do
  let insn := flow.context.instructions.getD label default
  let handlers := flow.covering label
  let state ← flow.propagateCaught handlers state frame
  let frame ← flow.context.execute frame label insn
  let state := state.measure frame
  let state ← if writesSlot insn then flow.propagateCaught handlers state frame else pure state
  return (state, frame)

/-- Where control goes after the last instruction of a block. -/
def successors (block : Block) : Except FrameFault (List Label) :=
  let insn := flow.context.instructions.getD block.last default
  if insn.fallsThrough then
    if flow.context.instructions.size ≤ block.stop then .error .fallsOff
    else .ok (insn.targets ++ [block.stop])
  else .ok insn.targets

def atLabel {α : Type} (label : Label) (result : Except FrameFault α) : Except FlowFault α :=
  result.mapError fun fault => ⟨some label, fault⟩

/-- Follow a block from a frame at its beginning. -/
def followBlock (state : FlowState) (block : Block) (frame : LiveFrame) :
    Except FlowFault FlowState := do
  let (state, frame) ← block.labels.foldlM
    (fun (state, frame) label => atLabel label (flow.followOne state frame label))
    (state.measure frame, frame)
  atLabel block.last do
    (← flow.successors block).foldlM (fun state target => flow.propagate state target frame) state

/-- Follow the first block that has to be followed. -/
def step (state : FlowState) (label : Label) (rest : List Label) : Except FlowFault FlowState :=
  let state := { state with pending := rest }
  match flow.blockAt? label, state.frame? label with
  | some block, some frame => flow.followBlock state block frame
  | _, _ => .ok state

/-- Follow blocks until the frames have settled, or no more than so many times. -/
def settle : Nat → FlowState → Except FlowFault FlowState
  | 0, state => if state.pending.isEmpty then .ok state else .error ⟨none, .unsettled⟩
  | visits + 1, state =>
    match state.pending with
    | [] => .ok state
    | label :: rest =>
      match flow.step state label rest with
      | .ok state => settle visits state
      | .error e => .error e

/-- Follow blocks until the frames have settled. Where they never do, this goes on for ever, and
`none` is what it does not return. -/
def loop? (flow : Flow) (state : FlowState) : Option (Except FlowFault FlowState) :=
  match state.pending with
  | [] => some (.ok state)
  | label :: rest =>
    match flow.step state label rest with
    | .ok state => flow |>.loop? state
    | .error e => some (.error e)
partial_fixpoint

/-- The visits for which `loop` counts, as the kernel can evaluate a loop that counts but not one
that need not end. Every other number would do as well. -/
def visitLimit : Nat := 1099511627776

/-- What comes of following blocks until the frames have settled. The fault `unsettled` stands
for a loop without end, so that nobody is ever told of it. -/
def loop (state : FlowState) : Except FlowFault FlowState :=
  match flow.settle visitLimit state with
  | .error ⟨none, .unsettled⟩ => (flow.loop? state).getD (.error ⟨none, .unsettled⟩)
  | result => result

end Flow

end ClassText
