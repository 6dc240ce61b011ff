import ClassText.Frame.Flow
import ClassText.Proofs.Frame.Execution
import ClassText.Proofs.Frame.Loop

/-!
# What a flow keeps

Following a block is made of few things: an instruction is executed, a handler
catches, and a frame flows into a block. A property of frames that the first two
keep, together with a property of states that the third one keeps, is kept by
following the block (`Flow.Keeps.followBlock`).

Often the property of a state is that all its frames have the property of
frames. Then all that remains to be seen is that merging keeps it, and it holds
of the frames that have settled (`Flow.Preserves.loop`).
-/

namespace ClassText

namespace FlowState

theorem mem_insertPending {label l : Label} {pending : List Label} :
    l ∈ insertPending label pending ↔ l = label ∨ l ∈ pending := by
  induction pending with
  | nil => simp [insertPending]
  | cons first rest ih =>
    rw [insertPending]
    split
    · exact List.mem_cons
    split
    · next heq =>
      subst heq
      exact ⟨.inr, fun h => h.elim (fun h => h ▸ List.mem_cons_self) id⟩
    · rw [List.mem_cons, ih, List.mem_cons]
      tauto

theorem frame?_update_self {state : FlowState} {label : Label} (frame : LiveFrame)
    (hlt : label < state.frames.size) : (state.update label frame).frame? label = some frame := by
  rw [frame?, update, Array.getElem?_setIfInBounds_self_of_lt hlt, Option.join_some]

theorem frame?_update_of_ne {state : FlowState} {label l : Label} (frame : LiveFrame)
    (hne : label ≠ l) : (state.update label frame).frame? l = state.frame? l := by
  rw [frame?, frame?, update, Array.getElem?_setIfInBounds_ne hne]

theorem frame?_update {state : FlowState} {label l : Label} {frame known : LiveFrame}
    (hframe : (state.update label frame).frame? l = some known) :
    l = label ∧ known = frame ∨ state.frame? l = some known := by
  rw [frame?, update, Array.getElem?_setIfInBounds] at hframe
  split at hframe
  · next heq =>
    split at hframe
    · exact .inl ⟨heq.symm, (Option.some.inj hframe).symm⟩
    · cases hframe
  · exact .inr hframe

theorem join_getElem?_replicate (count : Nat) (label : Label) :
    (Array.replicate count (none : Option LiveFrame))[label]?.join = none := by
  rw [Array.getElem?_replicate]
  split <;> rfl

theorem size_frames_update (state : FlowState) (label : Label) (frame : LiveFrame) :
    (state.update label frame).frames.size = state.frames.size := by
  rw [update, Array.size_setIfInBounds]

end FlowState

namespace Flow

variable {flow : Flow} {good : LiveFrame → Prop} {valid : FlowState → Prop}
  {state state' : FlowState} {frame after : LiveFrame}

/-! ## Following a block -/

/-- Nothing that happens in a block takes these properties from frames and states. -/
structure Keeps (flow : Flow) (good : LiveFrame → Prop) (valid : FlowState → Prop) : Prop where
  execute : ∀ {frame after : LiveFrame} {label : Label}, good frame →
    flow.context.execute frame label (flow.context.instructions.getD label default) = .ok after →
      good after
  caught : ∀ {frame : LiveFrame} {handler : Handler × RefType}, handler ∈ flow.handlers →
    good frame → good (frame.caught handler.2)
  measure : ∀ {state : FlowState} {frame : LiveFrame}, valid state → valid (state.measure frame)
  propagate : ∀ {state state' : FlowState} {target : Label} {frame : LiveFrame}, valid state →
    good frame → flow.propagate state target frame = .ok state' → valid state'

theorem Keeps.foldlM_propagate (h : flow.Keeps good valid) {ι : Type} (target : ι → Label)
    (incoming : ι → LiveFrame) {items : List ι} (hstate : valid state)
    (hincoming : ∀ i ∈ items, good (incoming i))
    (hfold : items.foldlM (fun state i => flow.propagate state (target i) (incoming i)) state =
      .ok state') : valid state' := by
  induction items generalizing state with
  | nil =>
    cases hfold
    exact hstate
  | cons i items ih =>
    obtain ⟨hi, hitems⟩ := List.forall_mem_cons.mp hincoming
    rw [List.foldlM_cons] at hfold
    obtain ⟨middle, hmiddle, hfold⟩ := Success.bind_eq_ok.mp hfold
    exact ih (h.propagate hstate hi hmiddle) hitems hfold

theorem Keeps.propagateCaught (h : flow.Keeps good valid) {label : Label} (hstate : valid state)
    (hframe : good frame)
    (hrun : flow.propagateCaught (flow.covering label) state frame = .ok state') :
    valid state' :=
  h.foldlM_propagate (fun handler : Handler × RefType => handler.1.target)
    (fun handler => frame.caught handler.2) hstate
    (fun _ hhandler => h.caught (List.mem_filter.mp hhandler).1 hframe) hrun

theorem Keeps.followOne (h : flow.Keeps good valid) {label : Label} (hstate : valid state)
    (hframe : good frame) (hone : flow.followOne state frame label = .ok (state', after)) :
    valid state' ∧ good after := by
  unfold Flow.followOne at hone
  obtain ⟨before, hbefore, hone⟩ := Success.bind_eq_ok.mp hone
  obtain ⟨executed, hexecuted, hone⟩ := Success.bind_eq_ok.mp hone
  have hgood := h.execute hframe hexecuted
  have hmeasured : valid (before.measure executed) :=
    h.measure (h.propagateCaught hstate hframe hbefore)
  dsimp only at hone
  split at hone
  · obtain ⟨final, hfinal, hone⟩ := Success.bind_eq_ok.mp hone
    cases hone
    exact ⟨h.propagateCaught hmeasured hgood hfinal, hgood⟩
  · cases hone
    exact ⟨hmeasured, hgood⟩

theorem Keeps.followLabels (h : flow.Keeps good valid) {labels : List Label} {last : LiveFrame}
    (hstate : valid state) (hframe : good frame)
    (hfold : labels.foldlM
      (fun (state, frame) label => atLabel label (flow.followOne state frame label))
      (state, frame) = .ok (state', last)) : valid state' ∧ good last := by
  induction labels generalizing state frame with
  | nil =>
    cases hfold
    exact ⟨hstate, hframe⟩
  | cons label labels ih =>
    rw [List.foldlM_cons] at hfold
    obtain ⟨⟨middle, after⟩, hone, hfold⟩ := Success.bind_eq_ok.mp hfold
    obtain ⟨hmiddle, hafter⟩ := h.followOne hstate hframe (Success.mapError_eq_ok.mp hone)
    exact ih hmiddle hafter hfold

theorem Keeps.followBlock (h : flow.Keeps good valid) {block : Block} (hstate : valid state)
    (hframe : good frame) (hrun : flow.followBlock state block frame = .ok state') :
    valid state' := by
  unfold Flow.followBlock at hrun
  obtain ⟨⟨middle, last⟩, hlabels, hrun⟩ := Success.bind_eq_ok.mp hrun
  obtain ⟨hmiddle, hlast⟩ := h.followLabels (h.measure hstate) hframe hlabels
  obtain ⟨targets, htargets, hfold⟩ := Success.bind_eq_ok.mp (Success.mapError_eq_ok.mp hrun)
  exact h.foldlM_propagate id (fun _ => last) hmiddle (fun _ _ => hlast) hfold

/-! ## Properties of all frames -/

/-- Nothing takes the property from a frame, merging included. -/
structure Preserves (flow : Flow) (good : LiveFrame → Prop) : Prop where
  execute : ∀ {frame after : LiveFrame} {label : Label}, good frame →
    flow.context.execute frame label (flow.context.instructions.getD label default) = .ok after →
      good after
  caught : ∀ {frame : LiveFrame} {handler : Handler × RefType}, handler ∈ flow.handlers →
    good frame → good (frame.caught handler.2)
  merge : ∀ {label : Label} {frame incoming merged : LiveFrame}, good frame → good incoming →
    flow.ancestry.mergeFrames frame incoming (flow.recordedAt? label) = .ok merged → good merged

/-- All frames of a state have the property. -/
def AllFrames (good : LiveFrame → Prop) (state : FlowState) : Prop :=
  ∀ label frame, state.frame? label = some frame → good frame

theorem AllFrames.update (hstate : AllFrames good state) {label : Label} (hframe : good frame) :
    AllFrames good (state.update label frame) := by
  intro l known hknown
  rcases FlowState.frame?_update hknown with ⟨-, rfl⟩ | hknown
  · exact hframe
  · exact hstate l known hknown

theorem Preserves.propagate (h : flow.Preserves good) {target : Label}
    (hstate : AllFrames good state) (hframe : good frame)
    (hrun : flow.propagate state target frame = .ok state') : AllFrames good state' := by
  unfold Flow.propagate at hrun
  split at hrun
  · cases hrun
  split at hrun
  · cases hrun
    exact hstate.update hframe
  · next known hknown =>
    obtain ⟨merged, hmerged, hrun⟩ := Success.bind_eq_ok.mp hrun
    split at hrun <;> cases hrun
    · exact hstate
    · exact hstate.update (h.merge (hstate _ _ hknown) hframe hmerged)

theorem Preserves.keeps (h : flow.Preserves good) : flow.Keeps good (AllFrames good) :=
  ⟨h.execute, h.caught, fun hstate => hstate, h.propagate⟩

theorem Preserves.step (h : flow.Preserves good) {label : Label} {rest : List Label}
    (hstate : AllFrames good state) (hstep : flow.step state label rest = .ok state') :
    AllFrames good state' := by
  unfold Flow.step at hstep
  dsimp only at hstep
  split at hstep
  · next block frame _ hframe =>
    have hpopped : AllFrames good { state with pending := rest } := hstate
    exact h.keeps.followBlock hpopped (hstate _ _ hframe) hstep
  · cases hstep
    exact hstate

theorem Preserves.loop (h : flow.Preserves good) (hstate : AllFrames good state)
    (hloop : flow.loop state = .ok state') : AllFrames good state' :=
  (loop_induction (fun hstate _ hstep => h.step hstate hstep) hstate hloop).1

/-- A type to which a merge can fall back, somewhere in the method. -/
def FallsBack (flow : Flow) (type : RefType) : Prop :=
  type = .object ClassName.throwable ∨
    ∃ entry ∈ flow.recorded, .object type ∈ entry.2.locals ∨ .object type ∈ entry.2.stack

theorem fallsBack_at {label : Label} {type : RefType}
    (h : Ancestry.FallsBack (flow.recordedAt? label) type) : flow.FallsBack type := by
  refine h.imp_right ?_
  rintro ⟨r, hr, htype⟩
  obtain ⟨entry, hentry, rfl⟩ := Option.map_eq_some_iff.mp hr
  exact ⟨entry, List.mem_of_find?_eq_some hentry, htype⟩

/-- A property of all types that a flow brings in, and that merging two types keeps. -/
structure Gives (flow : Flow) (good : LiveType → Prop) : Prop where
  context : flow.context.Gives good
  instructions : ∀ label, (flow.context.instructions.getD label default).Gives flow.context.pool
    good label
  handlers : ∀ handler ∈ flow.handlers, good (.object handler.2)
  fallback : ∀ type, flow.FallsBack type → good (.object type)
  merge : ∀ {t u : LiveType} {recorded : Option LiveType}, good t → good u →
    good (.object (Ancestry.fallback recorded)) → good (flow.ancestry.merge t u recorded)

theorem Gives.preserves {good : LiveType → Prop} (h : flow.Gives good) (slots : Nat) :
    flow.Preserves (LiveFrame.Holds good slots) where
  execute := fun hframe hexecute =>
    MethodContext.execute_holds h.context hframe (h.instructions _) hexecute
  caught := fun hhandler hframe => hframe.caught (h.handlers _ hhandler)
  merge := fun hframe hincoming hmerged =>
    Ancestry.mergeFrames_holds (fun type => good (.object type)) h.merge hframe hincoming
      (fun type htype => h.fallback type (fallsBack_at htype)) hmerged

/-! ## The beginning -/

/-- At the beginning, only the first block has a frame. -/
theorem frame?_start {entry : LiveFrame} {label : Label}
    (hframe : (flow.start entry).frame? label = some frame) :
    label = 0 ∧ frame = entry ∧ flow.blocks ≠ [] := by
  unfold start at hframe
  dsimp only at hframe
  split at hframe
  · rw [FlowState.frame?, FlowState.join_getElem?_replicate] at hframe
    cases hframe
  · next hne =>
    rw [FlowState.frame?, Array.getElem?_setIfInBounds, Array.size_replicate] at hframe
    split at hframe
    · next hzero =>
      split at hframe
      · exact ⟨hzero.symm, (Option.some.inj hframe).symm, by simpa using hne⟩
      · cases hframe
    · rw [FlowState.join_getElem?_replicate] at hframe
      cases hframe

theorem start_of_ne_nil (hne : flow.blocks ≠ []) (entry : LiveFrame) :
    flow.start entry = ⟨(Array.replicate flow.context.instructions.size none).setIfInBounds 0
      (some entry), [0], 0⟩ :=
  if_neg fun h => hne (List.isEmpty_iff.mp h)

theorem size_frames_start (entry : LiveFrame) :
    (flow.start entry).frames.size = flow.context.instructions.size := by
  unfold start
  dsimp only
  split
  · exact Array.size_replicate
  · rw [Array.size_setIfInBounds, Array.size_replicate]

theorem allFrames_start {entry : LiveFrame} (hentry : good entry) :
    AllFrames good (flow.start entry) :=
  fun _ _ hframe => (frame?_start hframe).2.1 ▸ hentry

end Flow

end ClassText
