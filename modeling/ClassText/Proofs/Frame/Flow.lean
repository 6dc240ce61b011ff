import ClassText.Proofs.Frame.Covering

/-!
# Frames that have settled

`Flow.IsStable` says what is expected of the frame of a block: the block can be
followed from it, what comes out is covered by the frames of the blocks after
it, and what holds on the way is covered by the frames of the handlers.

One frame covers another if all its types are above those of the other one. If
the classes of the method and all above them are known, merged frames cover both
sides (`Flow.Fits.covers`), so that blocks which are done are stable
(`Flow.IsDone.isStable`).
-/

namespace ClassText

namespace Flow

variable {flow : Flow} {frames frames' : Label → Option LiveFrame}

/-! ## What settled frames are -/

/-- The frame at a label is above this one. -/
def Covered (flow : Flow) (frames : Label → Option LiveFrame) (label : Label)
    (frame : LiveFrame) : Prop :=
  ∃ known, frames label = some known ∧ flow.ancestry.hierarchy.FrameBelow frame known

/-- An exception may be thrown in this frame at a label: the handlers there cover what they get. -/
def Caught (flow : Flow) (frames : Label → Option LiveFrame) (label : Label)
    (frame : LiveFrame) : Prop :=
  ∀ handler ∈ flow.covering label,
    flow.Covered frames handler.1.target (frame.caught handler.2)

/-- The instructions at these labels can be followed, from the first frame to the last one, and
their handlers cover what they get. -/
inductive Follows (flow : Flow) (frames : Label → Option LiveFrame) :
    LiveFrame → List Label → LiveFrame → Prop
  | done {frame : LiveFrame} : Follows flow frames frame [] frame
  | next {frame after last : LiveFrame} {label : Label} {labels : List Label}
      (hbefore : flow.Caught frames label frame)
      (hexecute : flow.context.execute frame label
        (flow.context.instructions.getD label default) = .ok after)
      (hafter : writesSlot (flow.context.instructions.getD label default) = true →
        flow.Caught frames label after)
      (hrest : Follows flow frames after labels last) :
      Follows flow frames frame (label :: labels) last

/-- Nothing is left to be done for a block with this frame. -/
def IsStable (flow : Flow) (frames : Label → Option LiveFrame) (block : Block)
    (frame : LiveFrame) : Prop :=
  ∃ last targets, flow.Follows frames frame block.labels last ∧
    flow.successors block = .ok targets ∧ ∀ target ∈ targets, flow.Covered frames target last

/-- All frames are covered by later ones. -/
def Upwards (flow : Flow) (frames frames' : Label → Option LiveFrame) : Prop :=
  ∀ label frame, frames label = some frame → flow.Covered frames' label frame

theorem Upwards.covered (h : flow.Upwards frames frames') {label : Label} {frame : LiveFrame}
    (hcovered : flow.Covered frames label frame) : flow.Covered frames' label frame := by
  obtain ⟨known, hknown, hbelow⟩ := hcovered
  obtain ⟨later, hlater, hbelow'⟩ := h label known hknown
  exact ⟨later, hlater, hbelow.trans hbelow'⟩

theorem Upwards.follows (h : flow.Upwards frames frames') {frame last : LiveFrame}
    {labels : List Label} (hfollows : flow.Follows frames frame labels last) :
    flow.Follows frames' frame labels last := by
  induction hfollows with
  | done => exact .done
  | next hbefore hexecute hafter _ ih =>
    exact .next (fun handler hh => h.covered (hbefore handler hh)) hexecute
      (fun hwrites handler hh => h.covered (hafter hwrites handler hh)) ih

theorem Upwards.isStable (h : flow.Upwards frames frames') {block : Block} {frame : LiveFrame}
    (hstable : flow.IsStable frames block frame) : flow.IsStable frames' block frame := by
  obtain ⟨last, targets, hfollows, htargets, hcovered⟩ := hstable
  exact ⟨last, targets, h.follows hfollows, htargets, fun t ht => h.covered (hcovered t ht)⟩

/-! ## What is covered in the end -/

/-- A flow whose classes are those of a method, all of them known. -/
structure Fits (names : String → Prop) (flow : Flow) : Prop where
  rooted : flow.ancestry.hierarchy.IsRooted names
  context : flow.context.Fits (flow.ancestry.hierarchy.InScope names)
  handlers : ∀ handler ∈ flow.handlers, ∀ name, handler.2.name? = some name →
    flow.ancestry.hierarchy.InScope names name

theorem fits_instruction {scope : String → Prop} (hcontext : flow.context.Fits scope)
    (label : Label) :
    (flow.context.instructions.getD label default).Fits scope flow.context.pool := by
  rw [Array.getD_eq_getD_getElem?]
  cases hinsn : flow.context.instructions[label]? with
  | none => exact fun _ hindex => nomatch hindex
  | some insn =>
    obtain ⟨hlt, rfl⟩ := Array.getElem?_eq_some_iff.mp hinsn
    exact hcontext.instructions _ (Array.getElem_mem hlt)

theorem Fits.covers {names : String → Prop} (h : flow.Fits names) (slots : Nat) :
    flow.Covers (LiveFrame.Fits (flow.ancestry.hierarchy.InScope names) slots)
      flow.ancestry.hierarchy.FrameBelow where
  refl := fun _ => .refl _
  trans := .trans
  preserves := {
    execute := fun hframe hexecute =>
      MethodContext.execute_fits h.context hframe (fits_instruction h.context _) hexecute
    caught := fun hhandler hframe => hframe.caught (h.handlers _ hhandler)
    merge := fun hframe hincoming hmerged =>
      (Ancestry.mergeFrames_spec h.rooted hframe hincoming hmerged).1 }
  merge := fun hframe hincoming hmerged =>
    (Ancestry.mergeFrames_spec h.rooted hframe hincoming hmerged).2

theorem Passes.follows {limit : Nat} {frame last : LiveFrame} {labels : List Label}
    (h : flow.Passes (flow.Covered frames) limit frame labels last) :
    flow.Follows frames frame labels last := by
  induction h with
  | done => exact .done
  | next hbefore hexecute _ hafter _ ih => exact .next hbefore hexecute hafter ih

theorem IsDone.isStable {limit : Nat} {block : Block} {frame : LiveFrame}
    (h : flow.IsDone (flow.Covered frames) limit block frame) :
    flow.IsStable frames block frame := by
  obtain ⟨last, targets, hpasses, htargets, hcovered⟩ := h.passes
  exact ⟨last, targets, hpasses.follows, htargets, hcovered⟩

end Flow

end ClassText
