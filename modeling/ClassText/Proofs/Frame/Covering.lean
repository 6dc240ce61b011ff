import ClassText.Proofs.Frame.Keeping

/-!
# Frames that cover what flows into them

What is true of the frames that have settled, for any notion of one frame
covering another that merging respects (`Flow.Covers`). Nothing is left to be done
for a block (`Flow.IsDone`) if it can be followed from its frame, and the frames
of its handlers and of the blocks after it cover what comes to them.

While blocks are followed, frames are replaced by others that cover them, and a
block whose frame changes has to be followed again (`Flow.Advances`). So every
block that was reached is done or pending (`Flow.Tracks`), except for the one that
is being followed; and that one either keeps its frame, for which everything was
done, or has become pending again. Frames come only to where control can go. When
nothing is pending, the blocks with a frame are those that were reached, and all
of them are done (`Flow.loop_tracks`).
-/

namespace ClassText.Flow

variable {flow : Flow}

/-! ## What settled frames are -/

/-- Control can go from the block to this label: to where it goes after the last instruction, or
to a handler that guards one of the instructions. -/
inductive Leads (flow : Flow) (block : Block) (target : Label) : Prop
  | after {targets : List Label} (htargets : flow.successors block = .ok targets)
    (h : target ∈ targets)
  | caught {label : Label} {handler : Handler × RefType} (hlabel : label ∈ block.labels)
    (hhandler : handler ∈ flow.covering label) (h : handler.1.target = target)

/-- Control can come to this label from the first one. -/
inductive Reaches (flow : Flow) : Label → Prop
  | first : Reaches flow 0
  | next {label target : Label} {block : Block} (h : Reaches flow label)
    (hblock : flow.blockAt? label = some block) (hleads : flow.Leads block target) :
    Reaches flow target

/-- The frame at a label covers this one. -/
def Meets (below : LiveFrame → LiveFrame → Prop) (state : FlowState) (label : Label)
    (frame : LiveFrame) : Prop :=
  ∃ known, state.frame? label = some known ∧ below frame known

/-- The instructions at these labels can be followed, from the first frame to the last one. What
comes to handlers is met there, and no stack on the way is higher than the limit. -/
inductive Passes (flow : Flow) (meets : Label → LiveFrame → Prop) (limit : Nat) :
    LiveFrame → List Label → LiveFrame → Prop
  | done {frame : LiveFrame} : Passes flow meets limit frame [] frame
  | next {frame after last : LiveFrame} {label : Label} {labels : List Label}
      (hbefore : ∀ handler ∈ flow.covering label,
        meets handler.1.target (frame.caught handler.2))
      (hexecute : flow.context.execute frame label
        (flow.context.instructions.getD label default) = .ok after)
      (hheight : after.stackSize ≤ limit)
      (hafter : writesSlot (flow.context.instructions.getD label default) = true →
        ∀ handler ∈ flow.covering label, meets handler.1.target (after.caught handler.2))
      (hrest : Passes flow meets limit after labels last) :
      Passes flow meets limit frame (label :: labels) last

/-- Nothing is left to be done for a block with this frame. -/
structure IsDone (flow : Flow) (meets : Label → LiveFrame → Prop) (limit : Nat) (block : Block)
    (frame : LiveFrame) : Prop where
  height : frame.stackSize ≤ limit
  passes : ∃ last targets, flow.Passes meets limit frame block.labels last ∧
    flow.successors block = .ok targets ∧ ∀ target ∈ targets, meets target last

section
variable {meets meets' : Label → LiveFrame → Prop} {limit limit' : Nat} {frame last : LiveFrame}

theorem Passes.mono (hmeets : ∀ label frame, meets label frame → meets' label frame)
    (hlimit : limit ≤ limit') {labels : List Label}
    (h : flow.Passes meets limit frame labels last) :
    flow.Passes meets' limit' frame labels last := by
  induction h with
  | done => exact .done
  | next hbefore hexecute hheight hafter _ ih =>
    exact .next (fun handler hh => hmeets _ _ (hbefore handler hh)) hexecute
      (hheight.trans hlimit) (fun hwrites handler hh => hmeets _ _ (hafter hwrites handler hh)) ih

theorem Passes.cons {after : LiveFrame} {label : Label} {labels : List Label}
    (h : flow.Passes meets limit frame [label] after)
    (hrest : flow.Passes meets limit after labels last) :
    flow.Passes meets limit frame (label :: labels) last := by
  cases h with
  | next hbefore hexecute hheight hafter hdone =>
    cases hdone
    exact .next hbefore hexecute hheight hafter hrest

theorem IsDone.mono (hmeets : ∀ label frame, meets label frame → meets' label frame)
    (hlimit : limit ≤ limit') {block : Block} (h : flow.IsDone meets limit block frame) :
    flow.IsDone meets' limit' block frame := by
  obtain ⟨last, targets, hpasses, htargets, hall⟩ := h.passes
  exact ⟨h.height.trans hlimit, last, targets, hpasses.mono hmeets hlimit, htargets,
    fun target ht => hmeets _ _ (hall target ht)⟩

end

/-! ## How the state changes -/

/-- A notion of frames that cover others, for frames with a property. Merged frames have the
property and cover both sides. -/
structure Covers (flow : Flow) (good : LiveFrame → Prop) (below : LiveFrame → LiveFrame → Prop) :
    Prop where
  refl : ∀ frame, below frame frame
  trans : ∀ {first second third : LiveFrame}, below first second → below second third →
    below first third
  preserves : flow.Preserves good
  merge : ∀ {label : Label} {frame incoming merged : LiveFrame}, good frame → good incoming →
    flow.ancestry.mergeFrames frame incoming (flow.recordedAt? label) = .ok merged →
      below frame merged ∧ below incoming merged

/-- From the first state to the second one, frames are covered by later ones. Where a frame
changes, there is a block that has to be followed, and control could go there. -/
structure Advances (flow : Flow) (below : LiveFrame → LiveFrame → Prop) (into : Label → Prop)
    (state state' : FlowState) : Prop where
  size : state'.frames.size = state.frames.size
  maxStack : state.maxStack ≤ state'.maxStack
  pending : ∀ label ∈ state.pending, label ∈ state'.pending
  frames : ∀ label, state'.frame? label = state.frame? label ∨
    into label ∧ (flow.blockAt? label).isSome ∧ label ∈ state'.pending
  covered : ∀ label frame, state.frame? label = some frame → Meets below state' label frame

/-- A state with a place for every block, in which all frames have the property. -/
structure StateHolds (flow : Flow) (good : LiveFrame → Prop) (state : FlowState) : Prop where
  size : ∀ block ∈ flow.blocks, block.start < state.frames.size
  frames : AllFrames good state

/-- What holds after a frame has flown somewhere. -/
structure Arrives (flow : Flow) (good : LiveFrame → Prop) (below : LiveFrame → LiveFrame → Prop)
    (into : Label → Prop) (state state' : FlowState) : Prop where
  holds : flow.StateHolds good state'
  advances : flow.Advances below into state state'

theorem StateHolds.lt_size {good : LiveFrame → Prop} {state : FlowState}
    (h : flow.StateHolds good state) {label : Label} {block : Block}
    (hblock : flow.blockAt? label = some block) : label < state.frames.size := by
  have hstart := List.find?_some hblock
  rw [← eq_of_beq hstart]
  exact h.size block (List.mem_of_find?_eq_some hblock)

section
variable {good : LiveFrame → Prop} {below : LiveFrame → LiveFrame → Prop}
  (hcovers : flow.Covers good below)
include hcovers

variable {into : Label → Prop} {s t u state state' : FlowState} {frame after last : LiveFrame}
  {label : Label}

theorem Advances.meets (h : flow.Advances below into s t) (hmeets : Meets below s label frame) :
    Meets below t label frame := by
  obtain ⟨known, hknown, hbelow⟩ := hmeets
  obtain ⟨later, hlater, hbelow'⟩ := h.covered label known hknown
  exact ⟨later, hlater, hcovers.trans hbelow hbelow'⟩

theorem advances_refl (state : FlowState) : flow.Advances below into state state where
  size := rfl
  maxStack := Nat.le_refl _
  pending := fun _ h => h
  frames := fun _ => .inl rfl
  covered := fun _ frame h => ⟨frame, h, hcovers.refl frame⟩

theorem Advances.trans (hst : flow.Advances below into s t) (htu : flow.Advances below into t u) :
    flow.Advances below into s u where
  size := htu.size.trans hst.size
  maxStack := hst.maxStack.trans htu.maxStack
  pending := fun label h => htu.pending label (hst.pending label h)
  frames := by
    intro label
    rcases htu.frames label with h | h
    · rcases hst.frames label with h' | ⟨hinto, hblock, h'⟩
      · exact .inl (h.trans h')
      · exact .inr ⟨hinto, hblock, htu.pending label h'⟩
    · exact .inr h
  covered := fun label frame h => htu.meets hcovers (hst.covered label frame h)

theorem arrives_refl (h : flow.StateHolds good state) :
    flow.Arrives good below into state state :=
  ⟨h, advances_refl hcovers state⟩

theorem Arrives.trans (hst : flow.Arrives good below into s t)
    (htu : flow.Arrives good below into t u) : flow.Arrives good below into s u :=
  ⟨htu.holds, hst.advances.trans hcovers htu.advances⟩

theorem arrives_measure (h : flow.StateHolds good state) (frame : LiveFrame) :
    flow.Arrives good below into state (state.measure frame) :=
  ⟨⟨h.size, h.frames⟩, ⟨rfl, Nat.le_max_left .., fun _ hl => hl, fun _ => .inl rfl,
    fun _ f hf => ⟨f, hf, hcovers.refl f⟩⟩⟩

/-- Setting the frame of a block to one that covers the frame that it had. -/
theorem arrives_update (h : flow.StateHolds good state) {block : Block}
    (hblock : flow.blockAt? label = some block) (hinto : into label) (hframe : good frame)
    (habove : ∀ known, state.frame? label = some known → below known frame) :
    flow.Arrives good below into state (state.update label frame) where
  holds := by
    refine ⟨fun b hb => ?_, h.frames.update hframe⟩
    rw [FlowState.size_frames_update]
    exact h.size b hb
  advances := by
    refine ⟨FlowState.size_frames_update .., Nat.le_refl _,
      fun l hl => FlowState.mem_insertPending.mpr (.inr hl), fun l => ?_, fun l f hf => ?_⟩
    · by_cases heq : label = l
      · subst heq
        exact .inr ⟨hinto, by rw [hblock, Option.isSome_some],
          FlowState.mem_insertPending.mpr (.inl rfl)⟩
      · exact .inl (FlowState.frame?_update_of_ne frame heq)
    · by_cases heq : label = l
      · subst heq
        exact ⟨frame, FlowState.frame?_update_self frame (h.lt_size hblock), habove f hf⟩
      · exact ⟨f, by rwa [FlowState.frame?_update_of_ne frame heq], hcovers.refl f⟩

theorem propagate_spec (h : flow.StateHolds good state) (hframe : good frame)
    (hinto : into label) (hrun : flow.propagate state label frame = .ok state') :
    flow.Arrives good below into state state' ∧ Meets below state' label frame := by
  unfold propagate at hrun
  split at hrun
  · cases hrun
  next block hblock =>
  split at hrun
  · next hnone =>
    cases hrun
    refine ⟨arrives_update hcovers h hblock hinto hframe fun known hknown => ?_, frame,
      FlowState.frame?_update_self frame (h.lt_size hblock), hcovers.refl frame⟩
    rw [hnone] at hknown
    cases hknown
  · next known hknown =>
    obtain ⟨merged, hmerged, hrun⟩ := Success.bind_eq_ok.mp hrun
    have hgood := hcovers.preserves.merge (h.frames _ _ hknown) hframe hmerged
    obtain ⟨hold, hnew⟩ := hcovers.merge (h.frames _ _ hknown) hframe hmerged
    split at hrun
    · next heq =>
      cases hrun
      exact ⟨arrives_refl hcovers h, known, hknown, heq ▸ hnew⟩
    · cases hrun
      refine ⟨arrives_update hcovers h hblock hinto hgood fun other hother => ?_, merged,
        FlowState.frame?_update_self merged (h.lt_size hblock), hnew⟩
      rw [hknown] at hother
      exact Option.some.inj hother ▸ hold

/-- Frames that flow one after the other are all met in the end. -/
theorem foldlM_propagate_spec {ι : Type} (target : ι → Label) (incoming : ι → LiveFrame)
    {items : List ι} (h : flow.StateHolds good state) (hincoming : ∀ i ∈ items, good (incoming i))
    (hinto : ∀ i ∈ items, into (target i))
    (hfold : items.foldlM (fun state i => flow.propagate state (target i) (incoming i)) state =
      .ok state') :
    flow.Arrives good below into state state' ∧
      ∀ i ∈ items, Meets below state' (target i) (incoming i) := by
  induction items generalizing state with
  | nil =>
    cases hfold
    exact ⟨arrives_refl hcovers h, by simp⟩
  | cons i items ih =>
    obtain ⟨hi, hitems⟩ := List.forall_mem_cons.mp hincoming
    obtain ⟨hiInto, hitemsInto⟩ := List.forall_mem_cons.mp hinto
    rw [List.foldlM_cons] at hfold
    obtain ⟨middle, hmiddle, hfold⟩ := Success.bind_eq_ok.mp hfold
    obtain ⟨hfirst, hmeets⟩ := propagate_spec hcovers h hi hiInto hmiddle
    obtain ⟨hrest, hall⟩ := ih hfirst.holds hitems hitemsInto hfold
    refine ⟨hfirst.trans hcovers hrest, List.forall_mem_cons.mpr ⟨?_, hall⟩⟩
    exact hrest.advances.meets hcovers hmeets

/-! ## Following a block -/

theorem propagateCaught_spec (h : flow.StateHolds good state) (hframe : good frame)
    (hinto : ∀ handler ∈ flow.covering label, into handler.1.target)
    (hrun : flow.propagateCaught (flow.covering label) state frame = .ok state') :
    flow.Arrives good below into state state' ∧
      ∀ handler ∈ flow.covering label,
        Meets below state' handler.1.target (frame.caught handler.2) :=
  foldlM_propagate_spec hcovers (fun handler : Handler × RefType => handler.1.target)
    (fun handler => frame.caught handler.2) h
    (fun _ hhandler => hcovers.preserves.caught (List.mem_filter.mp hhandler).1 hframe) hinto hrun

/-- One instruction: it is executed, and its handlers meet the frame before it, and the one after
it if it writes a variable. -/
theorem followOne_spec (h : flow.StateHolds good state) (hframe : good frame)
    (hinto : ∀ handler ∈ flow.covering label, into handler.1.target)
    (hone : flow.followOne state frame label = .ok (state', after)) :
    flow.Arrives good below into state state' ∧ good after ∧
      flow.Passes (Meets below state') state'.maxStack frame [label] after := by
  unfold followOne at hone
  obtain ⟨before, hbefore, hone⟩ := Success.bind_eq_ok.mp hone
  obtain ⟨hfirst, hcaught⟩ := propagateCaught_spec hcovers h hframe hinto hbefore
  obtain ⟨executed, hexecuted, hone⟩ := Success.bind_eq_ok.mp hone
  have hgood := hcovers.preserves.execute hframe hexecuted
  have hmeasure := hfirst.trans hcovers (arrives_measure hcovers hfirst.holds executed)
  have hheight : executed.stackSize ≤ (before.measure executed).maxStack := Nat.le_max_right ..
  dsimp only at hone
  split at hone
  · obtain ⟨final, hfinal, hone⟩ := Success.bind_eq_ok.mp hone
    cases hone
    obtain ⟨hlast, hcaught'⟩ := propagateCaught_spec hcovers hmeasure.holds hgood hinto hfinal
    exact ⟨hmeasure.trans hcovers hlast, hgood, .next
      (fun handler hh => hlast.advances.meets hcovers (hcaught handler hh)) hexecuted
      (hheight.trans hlast.advances.maxStack) (fun _ => hcaught') .done⟩
  · next hwrites =>
    cases hone
    exact ⟨hmeasure, hgood, .next hcaught hexecuted hheight (fun h => absurd h hwrites) .done⟩

theorem followLabels_spec {labels : List Label} (h : flow.StateHolds good state)
    (hframe : good frame)
    (hinto : ∀ label ∈ labels, ∀ handler ∈ flow.covering label, into handler.1.target)
    (hfold : labels.foldlM
      (fun (state, frame) label => atLabel label (flow.followOne state frame label))
      (state, frame) = .ok (state', last)) :
    flow.Arrives good below into state state' ∧ good last ∧
      flow.Passes (Meets below state') state'.maxStack frame labels last := by
  induction labels generalizing state frame with
  | nil =>
    cases hfold
    exact ⟨arrives_refl hcovers h, hframe, .done⟩
  | cons label labels ih =>
    obtain ⟨hinto, hothers⟩ := List.forall_mem_cons.mp hinto
    rw [List.foldlM_cons] at hfold
    obtain ⟨⟨middle, after⟩, hone, hfold⟩ := Success.bind_eq_ok.mp hfold
    obtain ⟨hfirst, hafter, hpasses⟩ :=
      followOne_spec hcovers h hframe hinto (Success.mapError_eq_ok.mp hone)
    obtain ⟨hrest, hlast, hpassesRest⟩ := ih hfirst.holds hafter hothers hfold
    refine ⟨hfirst.trans hcovers hrest, hlast, (hpasses.mono ?_ ?_).cons hpassesRest⟩
    · exact fun _ _ hmeets => hrest.advances.meets hcovers hmeets
    · exact hrest.advances.maxStack

/-- After a block was followed from a frame, nothing is left to be done for that frame. -/
theorem followBlock_spec (h : flow.StateHolds good state) {block : Block} (hframe : good frame)
    (hrun : flow.followBlock state block frame = .ok state') :
    flow.Arrives good below (flow.Leads block) state state' ∧
      flow.IsDone (Meets below state') state'.maxStack block frame := by
  unfold followBlock at hrun
  obtain ⟨⟨middle, last⟩, hlabels, hrun⟩ := Success.bind_eq_ok.mp hrun
  have hmeasure : flow.Arrives good below (flow.Leads block) state (state.measure frame) :=
    arrives_measure hcovers h frame
  obtain ⟨hmiddle, hlast, hpasses⟩ := followLabels_spec hcovers hmeasure.holds hframe
    (fun _ hlabel _ hhandler => Leads.caught hlabel hhandler rfl) hlabels
  obtain ⟨targets, htargets, hfold⟩ := Success.bind_eq_ok.mp (Success.mapError_eq_ok.mp hrun)
  obtain ⟨hend, hmeets⟩ := foldlM_propagate_spec hcovers id (fun _ => last) hmiddle.holds
    (fun _ _ => hlast) (fun _ htarget => Leads.after htargets htarget) hfold
  have hheight : frame.stackSize ≤ (state.measure frame).maxStack := Nat.le_max_right ..
  refine ⟨(hmeasure.trans hcovers hmiddle).trans hcovers hend, ?_, last, targets,
    hpasses.mono (fun _ _ hmeets => hend.advances.meets hcovers hmeets) hend.advances.maxStack,
    htargets, hmeets⟩
  exact hheight.trans (hmiddle.advances.maxStack.trans hend.advances.maxStack)

/-! ## Until the frames have settled -/

omit hcovers in
/-- The frames of a state are at blocks to which control can come, the entry frame is covered, and
every block with a frame is pending or done. -/
structure Tracks (flow : Flow) (good : LiveFrame → Prop) (below : LiveFrame → LiveFrame → Prop)
    (entry : LiveFrame) (state : FlowState) : Prop where
  holds : flow.StateHolds good state
  reached : ∀ label frame, state.frame? label = some frame →
    flow.Reaches label ∧ (flow.blockAt? label).isSome
  entry : flow.blocks ≠ [] → Meets below state 0 entry
  done : ∀ label block frame, flow.blockAt? label = some block →
    state.frame? label = some frame →
      label ∈ state.pending ∨ flow.IsDone (Meets below state) state.maxStack block frame

variable {entry : LiveFrame}

theorem step_tracks (h : flow.Tracks good below entry state) {rest : List Label}
    (hpending : state.pending = label :: rest) (hstep : flow.step state label rest = .ok state') :
    flow.Tracks good below entry state' := by
  have hpopped : flow.StateHolds good { state with pending := rest } :=
    ⟨h.holds.size, h.holds.frames⟩
  -- Of the other blocks, those that were pending still are.
  have hothers : ∀ l block frame, l ≠ label → flow.blockAt? l = some block →
      state.frame? l = some frame →
        l ∈ rest ∨ flow.IsDone (Meets below state) state.maxStack block frame := by
    intro l block frame hne hblock hframe
    rcases h.done l block frame hblock hframe with hl | hdone
    · rw [hpending] at hl
      exact .inl ((List.mem_cons.mp hl).resolve_left hne)
    · exact .inr hdone
  unfold step at hstep
  dsimp only at hstep
  split at hstep
  · next block frame hblock hframe =>
    obtain ⟨⟨hholds, hadvances⟩, hdone⟩ :=
      followBlock_spec hcovers hpopped (h.holds.frames label frame hframe) hstep
    have hmeets : ∀ l f, Meets below state l f → Meets below state' l f :=
      fun _ _ hmeets => hadvances.meets hcovers hmeets
    refine ⟨hholds, fun l known hknown => ?_, fun hne => hmeets _ _ (h.entry hne), ?_⟩
    · rcases hadvances.frames l with hsame | ⟨hleads, hat, -⟩
      · exact h.reached l known (hsame.symm.trans hknown)
      · exact ⟨.next (h.reached label frame hframe).1 hblock hleads, hat⟩
    · intro l other known hother hknown
      rcases hadvances.frames l with hsame | ⟨-, -, hl⟩
      · have hbefore : state.frame? l = some known := hsame.symm.trans hknown
        by_cases heq : l = label
        · subst heq
          obtain rfl := Option.some.inj (hblock.symm.trans hother)
          obtain rfl := Option.some.inj (hframe.symm.trans hbefore)
          exact .inr hdone
        · rcases hothers l other known heq hother hbefore with hl | hold
          · exact .inl (hadvances.pending l hl)
          · exact .inr (hold.mono hmeets hadvances.maxStack)
      · exact .inl hl
  · next hnone =>
    cases hstep
    refine ⟨hpopped, h.reached, h.entry, ?_⟩
    intro l block frame hblock hframe
    refine hothers l block frame ?_ hblock hframe
    rintro rfl
    exact hnone block frame hblock hframe

/-- At the beginning, only the first block has a frame, and it is pending. -/
theorem start_tracks (hentry : good entry)
    (hblocks : ∀ block ∈ flow.blocks, block.start < flow.context.instructions.size)
    (hfirst : flow.blocks ≠ [] → (flow.blockAt? 0).isSome) :
    flow.Tracks good below entry (flow.start entry) where
  holds := by
    refine ⟨fun block hblock => ?_, allFrames_start hentry⟩
    rw [size_frames_start]
    exact hblocks block hblock
  reached := by
    intro label frame hframe
    obtain ⟨rfl, -, hne⟩ := frame?_start hframe
    exact ⟨.first, hfirst hne⟩
  entry := by
    intro hne
    obtain ⟨first, hmem⟩ := List.exists_mem_of_ne_nil _ hne
    have hpos : 0 < flow.context.instructions.size := Nat.zero_lt_of_lt (hblocks first hmem)
    refine ⟨entry, ?_, hcovers.refl entry⟩
    rw [start_of_ne_nil hne, FlowState.frame?,
      Array.getElem?_setIfInBounds_self_of_lt (by rwa [Array.size_replicate]), Option.join_some]
  done := by
    intro label block frame hblock hframe
    obtain ⟨rfl, -, hne⟩ := frame?_start hframe
    rw [start_of_ne_nil hne]
    exact .inl (List.mem_singleton.mpr rfl)

theorem loop_tracks (h : flow.Tracks good below entry state)
    (hloop : flow.loop state = .ok state') :
    flow.Tracks good below entry state' ∧ state'.pending = [] :=
  loop_induction (fun h hpending hstep => step_tracks hcovers h hpending hstep) h hloop

end

end ClassText.Flow
