import ClassText.Frame.Analysis
import ClassText.Report
import ClassText.Version

/-!
# Rewriting the code of a method

The strings that a method loads are rewritten. A new text gets a string of its
own in the constant pool, and the instruction loads that one; the old string
stays where it is. If its index is too large for the instruction, the
instruction takes its long form and everything behind it moves. Then the frames
are derived again, and what else holds offsets in bytes is dropped.
-/

namespace ClassText

/-- A string that a method loads and in which some rule found its key. -/
structure LoadedText where
  label : Label
  before : String
  rewrite : Rewrite
deriving DecidableEq, Repr

namespace LoadedText

def isChanged (t : LoadedText) : Bool := t.rewrite.text != t.before

end LoadedText

namespace Instruction

/-- The same load of another constant. -/
def loadInstead (index : PoolIndex) : Instruction → Instruction
  | loadConstant _ wide => loadConstant index (wide || 255 < index.toNat)
  | other => other

end Instruction

namespace Code

/-- The text that the instruction at a label loads, rewritten, if some rule found its key. -/
def rewriteText? (rules : Rules) (pool : ConstantPool) (label : Label) (insn : Instruction) :
    Drawing (Option LoadedText) := do
  match insn.loadedConstant?.bind pool.stringText? with
  | none => return none
  | some text =>
    let rewrite ← rules.rewrite text
    return if rewrite.replacements.isEmpty then none else some ⟨label, text, rewrite⟩

/-- The texts in which some rule finds its key, in the order of the instructions. -/
def loadedTexts (code : Code) (rules : Rules) (pool : ConstantPool) :
    Drawing (List LoadedText) :=
  code.instructions.toList.zipIdx.filterMapM fun (insn, label) =>
    rewriteText? rules pool label insn

/-- Let an instruction load the new text. -/
def repoint (code : Code) (t : LoadedText) : PoolChange Code := do
  let text ← PoolChange.internText t.rewrite.text
  let index ← PoolChange.internString text
  return { code with
    instructions := code.instructions.modify t.label (Instruction.loadInstead index) }

/-- The code after its instructions have moved: with new frames where they are needed, and
without offsets that were not brought along. -/
def settleMoved (code : Code) (needsFrames : Bool) (method : MethodHead)
    (hierarchy : Hierarchy) : PoolChange Code := do
  let code ←
    if needsFrames then (CodeChange.deriveFrames method hierarchy).code code else pure code
  return code.dropStale (← get)

/-- The code with new texts, or nothing if none of them is another one. -/
def withTexts? (code : Code) (texts : List LoadedText) (version : Version)
    (method : MethodHead) (hierarchy : Hierarchy) : PoolChange (Option Code) := do
  let needsFrames := version.needsFrames code (← get)
  let changed := texts.filter (·.isChanged)
  if changed.isEmpty then return none
  let repointed ← changed.foldlM repoint code
  let layout (c : Code) : PoolChange (Array Nat) :=
    PoolChange.ofExcept ((Assembled.layout c.instructions).mapError .assembly)
  let moved := (← layout repointed) != (← layout code)
  let settled ←
    if moved then repointed.settleMoved needsFrames method hierarchy else pure repointed
  let _ ← PoolChange.ofExcept (settled.assemble.mapError .assembly)
  return some settled

end Code

end ClassText
