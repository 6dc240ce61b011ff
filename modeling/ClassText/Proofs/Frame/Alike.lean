import ClassText.Frame.Analysis
import ClassText.Proofs.Frame.Loop
import ClassText.Proofs.Hierarchy.Alike

/-!
# The same frames in another hierarchy

Frames ask the hierarchy for common types, and whether a class is an exception. So
hierarchies that are alike lead to the same frames: first where two frames are
merged (`Alike.mergeFrames`), through which alone the hierarchy is asked while
blocks are followed, and then layer by layer up to the table of frames.
-/

namespace ClassText

namespace Hierarchy.Alike

variable {h h' : Hierarchy}

/-! ## Merging -/

theorem isThrowable (halike : h.Alike h') (caught : List String) :
    Ancestry.isThrowable ⟨h, caught⟩ = Ancestry.isThrowable ⟨h', caught⟩ := by
  funext t
  cases t with
  | object name => rw [Ancestry.isThrowable, Ancestry.isThrowable, halike.superclassChain]
  | array extra element => rfl

theorem mergeReferences (halike : h.Alike h') (caught : List String) :
    Ancestry.mergeReferences ⟨h, caught⟩ = Ancestry.mergeReferences ⟨h', caught⟩ := by
  funext s t recorded
  simp only [Ancestry.mergeReferences, halike.commonRefType?, halike.isThrowable]

theorem merge (halike : h.Alike h') (caught : List String) :
    Ancestry.merge ⟨h, caught⟩ = Ancestry.merge ⟨h', caught⟩ := by
  funext t u recorded
  simp only [Ancestry.merge, halike.mergeReferences]

theorem mergeAll (halike : h.Alike h') (caught : List String) :
    Ancestry.mergeAll ⟨h, caught⟩ = Ancestry.mergeAll ⟨h', caught⟩ := by
  funext types others recorded
  rw [Ancestry.mergeAll, Ancestry.mergeAll, halike.merge]

theorem mergeFrames (halike : h.Alike h') (caught : List String) :
    Ancestry.mergeFrames ⟨h, caught⟩ = Ancestry.mergeFrames ⟨h', caught⟩ := by
  funext frame incoming recorded
  unfold Ancestry.mergeFrames
  rw [halike.mergeAll]

end Hierarchy.Alike

/-! ## Following blocks -/

namespace Flow

variable {flow : Flow} {h : Hierarchy}

/-- The same method, with its classes in another hierarchy. -/
def inside (flow : Flow) (h : Hierarchy) : Flow :=
  { flow with ancestry := { flow.ancestry with hierarchy := h } }

variable (halike : flow.ancestry.hierarchy.Alike h)
include halike

theorem propagate_inside : (flow.inside h).propagate = flow.propagate := by
  funext state target frame
  have hmerge : (flow.inside h).ancestry.mergeFrames = flow.ancestry.mergeFrames :=
    (halike.mergeFrames flow.ancestry.caught).symm
  rw [propagate, propagate, hmerge]
  rfl

theorem followOne_inside : (flow.inside h).followOne = flow.followOne := by
  have hcaught : (flow.inside h).propagateCaught = flow.propagateCaught := by
    funext handlers state frame
    rw [propagateCaught, propagateCaught, propagate_inside halike]
  funext state frame label
  rw [followOne, followOne, hcaught]
  rfl

theorem followBlock_inside : (flow.inside h).followBlock = flow.followBlock := by
  funext state block frame
  rw [followBlock, followBlock, followOne_inside halike, propagate_inside halike]
  rfl

theorem settle_inside (visits : Nat) (state : FlowState) :
    (flow.inside h).settle visits state = flow.settle visits state := by
  have hstep : (flow.inside h).step = flow.step := by
    funext state label rest
    rw [step, step, followBlock_inside halike]
    rfl
  induction visits generalizing state with
  | zero => rfl
  | succ visits ih => simp only [settle, hstep, ih]

end Flow

/-! ## Deriving the table -/

namespace Hierarchy.Alike

variable {h h' : Hierarchy}

theorem ofCode (halike : h.Alike h') (code : Code) (method : MethodHead) (pool : ConstantPool) :
    Analysis.ofCode code method pool h = Analysis.ofCode code method pool h' := by
  unfold Analysis.ofCode Analysis.flowOf
  cases Analysis.entryOf code method with
  | error e => rfl
  | ok entry =>
    cases code.handlers.mapM (Analysis.catchType pool) with
    | error e => rfl
    | ok types =>
      let flow : Flow := {
        context := ⟨pool, method.thisClass, code.instructions⟩
        ancestry := ⟨h, Analysis.classNames types⟩
        handlers := code.handlers.zip types
        recorded := code.recordedFrames pool entry
        blocks := code.blocks }
      have hloop : (flow.inside h').loop (flow.start entry) = flow.loop (flow.start entry) :=
        Flow.loop_congr fun visits => Flow.settle_inside halike visits _
      show (do
        let state ← flow.loop (flow.start entry)
        return ⟨entry, ← Analysis.blockFrames flow.blocks state, state.maxStack⟩ :
          Except FlowFault Analysis) = _
      rw [← hloop]
      rfl

theorem deriveFrames (halike : h.Alike h') (method : MethodHead) :
    CodeChange.deriveFrames method h = CodeChange.deriveFrames method h' := by
  unfold CodeChange.deriveFrames Code.deriveTable
  simp only [halike.ofCode]

end Hierarchy.Alike

end ClassText
