import ClassText.Proofs.Frame.Analysis
import ClassText.Proofs.Frame.Keeping
import ClassText.Proofs.Frame.Weight
import Mathlib.Algebra.Order.BigOperators.Group.Finset

/-!
# Frames settle where the way up is clear

All frames of a method together have a weight. A label that was not reached is
heavier than any frame; a frame that comes to a label, or changes there, makes
the whole lighter (`Flow.Sinks`). When a block is followed and nothing changes,
one label less is pending. So the frames settle after so many blocks, or
following one of them fails (`Flow.exists_visits`).

That rests on merging, which makes frames lighter only where the way up from
each fallback is clear. Without that it is not so: a handler that covers itself
may go round in a circle for ever (`Analysis.unsettled_circling`).
-/

namespace ClassText

namespace Flow

variable {flow : Flow} {names scope : String → Prop} {slots : Nat} {state state' : FlowState}

/-! ## The weight of all frames -/

noncomputable def labelWeight (flow : Flow) (scope : String → Prop) (label : Label) :
    Option LiveFrame → ℕ ×ₗ ℕ ×ₗ ℕ
  | none => toLex (1, 0)
  | some frame => toLex (0, flow.ancestry.frameWeight scope (flow.recordedAt? label) frame)

noncomputable def stateWeight (flow : Flow) (scope : String → Prop) (state : FlowState) :
    ℕ ×ₗ ℕ ×ₗ ℕ :=
  ∑ label ∈ Finset.range state.frames.size, flow.labelWeight scope label (state.frame? label)

/-- The frames became lighter, or nothing has to be followed that had not to be before. -/
def Sinks (flow : Flow) (scope : String → Prop) (state state' : FlowState) : Prop :=
  flow.stateWeight scope state' < flow.stateWeight scope state ∨
    flow.stateWeight scope state' = flow.stateWeight scope state ∧ state'.pending = state.pending

theorem Sinks.refl (state : FlowState) : flow.Sinks scope state state :=
  .inr ⟨rfl, rfl⟩

theorem Sinks.trans {s t u : FlowState} (hst : flow.Sinks scope s t) (htu : flow.Sinks scope t u) :
    flow.Sinks scope s u := by
  rcases hst with hlt | ⟨heq, hpending⟩ <;> rcases htu with hlt' | ⟨heq', hpending'⟩
  · exact .inl (hlt'.trans hlt)
  · exact .inl (heq' ▸ hlt)
  · exact .inl (heq ▸ hlt')
  · exact .inr ⟨heq'.trans heq, hpending'.trans hpending⟩

theorem stateWeight_update_lt {label : Label} {frame : LiveFrame}
    (hlt : label < state.frames.size)
    (hframe : flow.labelWeight scope label (some frame) <
      flow.labelWeight scope label (state.frame? label)) :
    flow.stateWeight scope (state.update label frame) < flow.stateWeight scope state := by
  rw [stateWeight, stateWeight, FlowState.size_frames_update]
  refine Finset.sum_lt_sum (fun l _ => ?_) ⟨label, Finset.mem_range.mpr hlt, ?_⟩
  · by_cases heq : label = l
    · subst heq
      rw [FlowState.frame?_update_self frame hlt]
      exact hframe.le
    · rw [FlowState.frame?_update_of_ne frame heq]
  · rwa [FlowState.frame?_update_self frame hlt]

/-! ## What a step does to the weight -/

/-- A flow whose types are in scope, and in which the way up from every fallback is clear. -/
structure IsClear (flow : Flow) (names : String → Prop) : Prop where
  context : flow.context.Fits (flow.ancestry.hierarchy.InScope names)
  handlers : ∀ handler ∈ flow.handlers, ∀ name, handler.2.name? = some name →
    flow.ancestry.hierarchy.InScope names name
  fallback : ∀ type, flow.FallsBack type → ∀ name, type.name? = some name →
    flow.ancestry.hierarchy.InScope names name
  clear : ∀ type, flow.FallsBack type →
    flow.ancestry.hierarchy.IsClearAbove (flow.ancestry.hierarchy.InScope names) type

/-- A state with a place for each block, and frames of the method only. -/
structure StateValid (flow : Flow) (names : String → Prop) (slots : Nat) (state : FlowState) :
    Prop where
  size : ∀ block ∈ flow.blocks, block.start < state.frames.size
  frames : AllFrames (LiveFrame.Fits (flow.ancestry.hierarchy.InScope names) slots) state

theorem StateValid.update (h : flow.StateValid names slots state) {label : Label}
    {frame : LiveFrame} (hframe : frame.Fits (flow.ancestry.hierarchy.InScope names) slots) :
    flow.StateValid names slots (state.update label frame) :=
  ⟨fun block hblock => by
    rw [FlowState.size_frames_update]
    exact h.size block hblock, h.frames.update hframe⟩

theorem propagate_sinks (hflow : flow.IsClear names) (h : flow.StateValid names slots state)
    {target : Label} {frame : LiveFrame}
    (hframe : frame.Fits (flow.ancestry.hierarchy.InScope names) slots)
    (hrun : flow.propagate state target frame = .ok state') :
    flow.StateValid names slots state' ∧
      flow.Sinks (flow.ancestry.hierarchy.InScope names) state state' := by
  unfold propagate at hrun
  split at hrun
  · cases hrun
  next block hblock =>
  have hlt : target < state.frames.size := by
    have hstart := List.find?_some hblock
    rw [← eq_of_beq hstart]
    exact h.size block (List.mem_of_find?_eq_some hblock)
  split at hrun
  · next hnone =>
    cases hrun
    refine ⟨h.update hframe, .inl (stateWeight_update_lt hlt ?_)⟩
    rw [hnone]
    exact Prod.Lex.toLex_lt_toLex.mpr (.inl Nat.zero_lt_one)
  · next known hknown =>
    obtain ⟨merged, hmerged, hrun⟩ := Success.bind_eq_ok.mp hrun
    have hknownFits := h.frames _ _ hknown
    split at hrun <;> cases hrun
    · exact ⟨h, .refl state⟩
    · next hne =>
      have hfits := Ancestry.mergeFrames_fits hknownFits hframe
        (fun type htype => hflow.fallback type (fallsBack_at htype)) hmerged
      have hlighter := (Ancestry.mergeFrames_lt hframe
        (fun type htype => hflow.clear type (fallsBack_at htype)) hmerged).resolve_left hne
      refine ⟨h.update hfits, .inl (stateWeight_update_lt hlt ?_)⟩
      rw [hknown]
      exact Prod.Lex.toLex_lt_toLex.mpr (.inr ⟨rfl, hlighter⟩)

theorem keeps_sinks (hflow : flow.IsClear names) (state : FlowState) :
    flow.Keeps (LiveFrame.Fits (flow.ancestry.hierarchy.InScope names) slots)
      fun s => flow.StateValid names slots s ∧
        flow.Sinks (flow.ancestry.hierarchy.InScope names) state s where
  execute := fun hframe hexecute =>
    MethodContext.execute_fits hflow.context hframe (fits_instruction hflow.context _) hexecute
  caught := fun hhandler hframe => hframe.caught (hflow.handlers _ hhandler)
  measure := fun ⟨hvalid, hsinks⟩ => ⟨⟨hvalid.size, hvalid.frames⟩, hsinks⟩
  propagate := by
    rintro s s' target frame ⟨hvalid, hsinks⟩ hframe hrun
    obtain ⟨hvalid', hsinks'⟩ := propagate_sinks hflow hvalid hframe hrun
    exact ⟨hvalid', hsinks.trans hsinks'⟩

/-- A step makes the frames lighter, or leaves one label less to follow. -/
theorem step_sinks (hflow : flow.IsClear names) (h : flow.StateValid names slots state)
    {label : Label} {rest : List Label} (hstep : flow.step state label rest = .ok state') :
    flow.StateValid names slots state' ∧
      (flow.stateWeight (flow.ancestry.hierarchy.InScope names) state' <
          flow.stateWeight (flow.ancestry.hierarchy.InScope names) state ∨
        flow.stateWeight (flow.ancestry.hierarchy.InScope names) state' =
          flow.stateWeight (flow.ancestry.hierarchy.InScope names) state ∧
        state'.pending = rest) := by
  have hpopped : flow.StateValid names slots { state with pending := rest } := ⟨h.size, h.frames⟩
  unfold step at hstep
  dsimp only at hstep
  split at hstep
  · next block frame _ hframe =>
    exact (keeps_sinks hflow { state with pending := rest }).followBlock ⟨hpopped, .refl _⟩
      (h.frames _ _ hframe) hstep
  · cases hstep
    exact ⟨hpopped, .inr ⟨rfl, rfl⟩⟩

/-! ## The frames settle -/

/-- After so many visits, nothing changes any more, and the frames have settled or a block could
not be followed. -/
def Settles (flow : Flow) (state : FlowState) : Prop :=
  ∃ visits, (∀ limit, visits ≤ limit → flow.settle limit state = flow.settle visits state) ∧
    flow.settle visits state ≠ .error ⟨none, .unsettled⟩

/-- The frames settle exactly if the loop comes to its end. -/
theorem settles_iff : flow.Settles state ↔ ∃ result, flow.loop? state = some result := by
  constructor
  · rintro ⟨visits, -, hsettled⟩
    exact ⟨_, loop?_of_settle rfl hsettled⟩
  · rintro ⟨result, hloop⟩
    obtain ⟨visits, rfl, hsettled⟩ := loop?_eq_some_iff.mp hloop
    exact ⟨visits, fun limit hle => settle_of_le rfl hsettled hle, hsettled⟩

theorem settles_of_step {label : Label} {rest : List Label}
    (hpending : state.pending = label :: rest)
    (h : ∀ state', flow.step state label rest = .ok state' → flow.Settles state') :
    flow.Settles state := by
  rw [settles_iff, loop?_of_cons hpending]
  cases hstep : flow.step state label rest with
  | ok next => exact settles_iff.mp (h next hstep)
  | error e => exact ⟨.error e, rfl⟩

theorem exists_visits (hflow : flow.IsClear names) :
    ∀ (measure : (ℕ ×ₗ ℕ ×ₗ ℕ) ×ₗ ℕ) {state : FlowState}, flow.StateValid names slots state →
      toLex (flow.stateWeight (flow.ancestry.hierarchy.InScope names) state,
        state.pending.length) = measure → flow.Settles state := by
  intro measure
  induction measure using WellFoundedLT.induction with
  | ind measure ih =>
    intro state hstate hmeasure
    cases hpending : state.pending with
    | nil =>
      exact settles_iff.mpr ⟨_, loop?_of_nil hpending⟩
    | cons label rest =>
      refine settles_of_step hpending fun state' hstep => ?_
      obtain ⟨hstate', hsinks⟩ := step_sinks hflow hstate hstep
      refine ih _ ?_ hstate' rfl
      rw [← hmeasure, Prod.Lex.toLex_lt_toLex, hpending]
      obtain hless | ⟨hweight, hrest⟩ := hsinks
      · exact .inl hless
      · refine .inr ⟨hweight, ?_⟩
        rw [hrest]
        exact Nat.lt_succ_self _

end Flow

namespace Analysis

variable {code : Code} {method : MethodHead} {pool : ConstantPool} {hierarchy : Hierarchy}

/-- The class can occur in frames: the method mentions it, or a merge can fall back to it. -/
def Occurs (code : Code) (method : MethodHead) (pool : ConstantPool) (flow : Flow)
    (name : String) : Prop :=
  code.Mentions method pool name ∨ ∃ type, flow.FallsBack type ∧ type.name? = some name

theorem isClear_flowOf {entry : LiveFrame} {flow : Flow}
    (hflow : flowOf code method pool hierarchy entry = .ok flow)
    (hclear : ∀ type, flow.FallsBack type →
      hierarchy.IsClearAbove (hierarchy.InScope (Occurs code method pool flow)) type) :
    flow.IsClear (Occurs code method pool flow) := by
  obtain ⟨-, -, rfl⟩ := flowOf_eq_ok hflow
  have hscope : ∀ name, code.Mentions method pool name →
      flow.ancestry.hierarchy.InScope (Occurs code method pool flow) name :=
    fun name hname => .inr ⟨name, .inl hname, .refl _⟩
  obtain ⟨hcontext, hhandlers⟩ := scope_flowOf hscope hflow
  exact ⟨hcontext, hhandlers,
    fun type htype name hname => .inr ⟨name, .inr ⟨type, htype, hname⟩, .refl _⟩, hclear⟩

theorem settles_of_isClear {entry : LiveFrame} {flow : Flow}
    (hentry : entryOf code method = .ok entry)
    (hflow : flowOf code method pool hierarchy entry = .ok flow)
    (hclear : flow.IsClear (Occurs code method pool flow)) : flow.Settles (flow.start entry) := by
  obtain ⟨hblocks, hcontext, -⟩ := flowOf_eq_ok hflow
  have hscope : ∀ name, code.Mentions method pool name →
      flow.ancestry.hierarchy.InScope (Occurs code method pool flow) name :=
    fun name hname => .inr ⟨name, .inl hname, .refl _⟩
  have hvalid : flow.StateValid (Occurs code method pool flow) entry.locals.length
      (flow.start entry) := by
    refine ⟨fun block hblock => ?_, Flow.allFrames_start (fits_entryOf hscope hentry)⟩
    rw [Flow.size_frames_start, hcontext]
    exact Code.start_lt_of_mem_blocks (hblocks ▸ hblock)
  exact Flow.exists_visits hclear _ hvalid rfl

/-- If everything above the classes that can occur in frames is known, following the blocks of a
method comes to an end. -/
theorem settles_of_rooted {entry : LiveFrame} {flow : Flow}
    (hentry : entryOf code method = .ok entry)
    (hflow : flowOf code method pool hierarchy entry = .ok flow)
    (hrooted : hierarchy.IsRooted (Occurs code method pool flow)) :
    flow.Settles (flow.start entry) :=
  settles_of_isClear hentry hflow <| isClear_flowOf hflow fun type htype =>
    Hierarchy.isClearAbove_of_rooted hrooted fun name hname =>
      .inr ⟨name, .inr ⟨type, htype, hname⟩, .refl _⟩

/-- If the way up from every recorded type and from `java/lang/Throwable` is clear, following the
blocks of a method comes to an end, whatever else is unknown. -/
theorem settles_of_clear {entry : LiveFrame} {flow : Flow}
    (hentry : entryOf code method = .ok entry)
    (hflow : flowOf code method pool hierarchy entry = .ok flow)
    (hclear : ∀ type, flow.FallsBack type →
      hierarchy.IsClearAbove (hierarchy.InScope (Occurs code method pool flow)) type) :
    flow.Settles (flow.start entry) :=
  settles_of_isClear hentry hflow (isClear_flowOf hflow hclear)

end Analysis

/-! ## A handler that covers itself -/

def ConstantPool.circling : ConstantPool :=
  ⟨#[none, some (.utf8 ClassName.throwable), some (.classRef 1),
    some (.utf8 CodeAttribute.frameTable)], by decide⟩

/-- Throws null in a handler that guards itself. The handler copies its second argument to its first
one, and then its third one; the table of frames repeats the descriptor. -/
def Code.circlingBytes : Bytes :=
  [0, 1, 0, 3, 0, 0, 0, 7, 0x01, 0x57, 0x2b, 0x4b, 0x2c, 0x4b, 0xb1,
    0, 1, 0, 1, 0, 6, 0, 1, 0, 0, 0, 1, 0, 3, 0, 0, 0, 6, 0, 1, 0x41, 7, 0, 2]

def Code.circling : Code where
  maxStack := 1
  maxLocals := 3
  instructions := #[.simple Opcode.aconstNull, .simple Opcode.pop, .slot Opcode.aload 1 .short,
    .slot Opcode.astore 0 .short, .slot Opcode.aload 2 .short, .slot Opcode.astore 0 .short,
    .simple Opcode.returnVoid]
  sourceOffsets := #[0, 1, 2, 3, 4, 5, 6, 7]
  handlers := [⟨1, 6, 1, none⟩]
  attributes := [⟨3, .raw [0, 1, 0x41, 7, 0, 2]⟩]

def MethodHead.circling : MethodHead := ⟨"A", "m", "(LR;LB;LU;)V", true⟩

/-- The frame with which the method begins, with this stack. -/
def LiveFrame.circling (stack : OperandStack) : LiveFrame :=
  ⟨[LiveType.ofClass "R", LiveType.ofClass "B", LiveType.ofClass "U"], stack⟩

def Flow.circling (hierarchy : Hierarchy) : Flow where
  context := ⟨.circling, "A", Code.circling.instructions⟩
  ancestry := ⟨hierarchy, [ClassName.throwable]⟩
  handlers := [(⟨1, 6, 1, none⟩, .object ClassName.throwable)]
  recorded := [(1, .circling [LiveType.ofClass ClassName.throwable])]
  blocks := [⟨0, 1⟩, ⟨1, 6⟩, ⟨6, 7⟩]

/-- A class below the root, and everything else unknown. -/
def Hierarchy.gappy : Hierarchy :=
  ⟨[⟨"B", some ClassName.object, [], false⟩], []⟩

/-- Besides, a class below that one, to which the type recorded for the first argument belongs. -/
def Hierarchy.circling : Hierarchy :=
  ⟨[⟨"B", some ClassName.object, [], false⟩, ⟨"R", some "B", [], false⟩], []⟩

namespace Analysis

theorem entryOf_circling : entryOf .circling .circling = .ok (.circling []) := by
  decide +kernel

theorem settles_of_clear_circling :
    entryOf .circling .circling = .ok (.circling []) ∧
      flowOf .circling .circling .circling .gappy (.circling []) = .ok (.circling .gappy) ∧
      (Flow.circling .gappy).Settles ((Flow.circling .gappy).start (.circling [])) := by
  have hflow : flowOf .circling .circling .circling .gappy (.circling []) =
      .ok (.circling .gappy) := by
    decide +kernel
  refine ⟨entryOf_circling, hflow, settles_of_clear entryOf_circling hflow fun type htype => ?_⟩
  have habove : ∀ {name above : String}, Hierarchy.gappy.IsBelow name above →
      above = name ∨ Hierarchy.gappy.IsOpen above := by
    intro name above hbelow
    cases hbelow with
    | refl => exact .inl rfl
    | tail _ hstep =>
      obtain ⟨info, hinfo, habove⟩ := hstep
      obtain rfl := List.mem_singleton.mp (Hierarchy.mem_known_of_resolve? hinfo)
      exact .inr (.inl (List.mem_singleton.mp habove))
  have hclass : ∃ name, type = .object name := by
    rcases htype with rfl | ⟨entry, hentry, hmem⟩
    · exact ⟨_, rfl⟩
    · obtain rfl := List.mem_singleton.mp hentry
      simp only [LiveFrame.circling, LiveType.ofClass, List.mem_cons, List.not_mem_nil, or_false,
        VerificationType.object.injEq] at hmem
      rcases hmem with (rfl | rfl | rfl) | rfl <;> exact ⟨_, rfl⟩
  obtain ⟨name, rfl⟩ := hclass
  exact Hierarchy.isClearAbove_of_outermost habove

/-- The state with which the handler is entered. -/
def enteredState : FlowState where
  frames := #[some (.circling []), some (.circling [.null]), none, none, none, none, none]
  pending := [1]
  maxStack := 1

/-- The state to which the handler comes back again and again: when its first argument is one of
the class `B`, the common class of `R` and `B` is `B`; when it is one of the unknown class `U`,
the recorded class `R` takes the place of the common class. -/
def circlingState : FlowState where
  frames := #[some (.circling []),
    some (.circling [LiveType.ofClass ClassName.throwable]), none, none, none, none,
    some ⟨[LiveType.ofClass "U", LiveType.ofClass "B", LiveType.ofClass "U"], []⟩]
  pending := [1, 6]
  maxStack := 1

theorem step_start_circling :
    (Flow.circling .circling).step ((Flow.circling .circling).start (.circling [])) 0 [] =
      .ok enteredState := by
  decide +kernel

theorem step_enteredState :
    (Flow.circling .circling).step enteredState 1 [] = .ok circlingState := by
  decide +kernel

theorem step_circlingState :
    (Flow.circling .circling).step circlingState 1 [6] = .ok circlingState := by
  decide +kernel

theorem settle_circlingState (visits : Nat) :
    (Flow.circling .circling).settle visits circlingState = .error ⟨none, .unsettled⟩ :=
  Flow.settle_of_circle rfl step_circlingState visits

/-- The frames of this method never settle. -/
theorem unsettled_circling :
    Code.ofBytes .circling Code.circlingBytes = .ok .circling ∧
      entryOf .circling .circling = .ok (.circling []) ∧
      flowOf .circling .circling .circling .circling (.circling []) = .ok (.circling .circling) ∧
      ∀ visits, (Flow.circling .circling).settle visits
        ((Flow.circling .circling).start (.circling [])) = .error ⟨none, .unsettled⟩ := by
  refine ⟨by decide +kernel, entryOf_circling, by decide +kernel, fun visits => ?_⟩
  match visits with
  | 0 => rfl
  | 1 =>
    rw [Flow.settle_succ rfl, step_start_circling]
    rfl
  | visits + 2 =>
    rw [Flow.settle_succ rfl, step_start_circling]
    show (Flow.circling .circling).settle (visits + 1) enteredState = _
    rw [Flow.settle_succ rfl, step_enteredState]
    exact settle_circlingState visits

end Analysis

end ClassText
