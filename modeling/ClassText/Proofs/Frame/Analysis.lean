import ClassText.Frame.Analysis
import ClassText.Proofs.Code.Block
import ClassText.Proofs.Frame.Flow

/-!
# The frames of a method are sound

The blocks of code begin at different labels, the first of them at 0, and the
analysis of a method holds a frame for each. Where the classes that the method
mentions (`Code.Mentions`) are known, with all that is above them, these frames
are what a verifier asks for: the entry frame is covered by that of the first
block, and each block is stable (`Analysis.ofCode_sound`). Frames that the class
file recorded before make no difference to that.
-/

namespace ClassText

/-! ## The method in which frames flow -/

/-- The class can occur among the types of a method: it is that of the method itself, or in its
descriptor, or caught by a handler, or mentioned by a constant of an instruction. -/
inductive Code.Mentions (code : Code) (method : MethodHead) (pool : ConstantPool)
    (name : String) : Prop
  | ofMethod (h : name = method.thisClass)
  | ofDescriptor {type : MethodType} (h : MethodType.parse method.descriptor = .ok type)
      (hname : type.Mentions name)
  | ofHandler {handler : Handler} {type : RefType} (hhandler : handler ∈ code.handlers)
      (h : Analysis.catchType pool handler = .ok type) (hname : type.name? = some name)
  | ofConstant {insn : Instruction} {index : PoolIndex} (hinsn : insn ∈ code.instructions)
      (hindex : insn.constant? = some index) (hname : pool.Mentions index name)

/-- The frame with which a method begins is spread out, and has the properties of what is given. -/
theorem LiveFrame.holds_entry {good : LiveType → Prop} (hclosed : LiveType.IsClosed good)
    {thisClass name : String} {isStatic : Bool} {type : MethodType}
    (hthis : good (LiveType.ofClass thisClass))
    (hparameters : ∀ parameter ∈ type.parameters, good (LiveType.ofField parameter))
    (maxLocals : Nat) :
    (entry thisClass name isStatic type maxLocals).Holds good
      (entry thisClass name isStatic type maxLocals).locals.length where
  slots := rfl
  spread := by
    refine .append (.append ?_ (VerificationType.isSpread_spread _))
      (VerificationType.isSpread_replicate _)
    refine VerificationType.isSpread_of_forall fun t ht => ?_
    unfold receiver at ht
    split at ht
    · cases ht
    split at ht <;> exact List.mem_singleton.mp ht ▸ rfl
  locals := by
    intro t ht
    rcases List.mem_append.mp ht with ht | ht
    · rcases List.mem_append.mp ht with ht | ht
      · unfold receiver at ht
        split at ht
        · cases ht
        split at ht <;> obtain rfl := List.mem_singleton.mp ht
        · exact hclosed.plain rfl
        · exact hthis
      · rcases VerificationType.mem_spread ht with ht | rfl
        · obtain ⟨parameter, hparameter, rfl⟩ := List.mem_map.mp ht
          exact hparameters parameter hparameter
        · exact hclosed.plain rfl
    · exact (List.mem_replicate.mp ht).2 ▸ hclosed.plain rfl
  stack := by simp [entry]

namespace Analysis

variable {code : Code} {method : MethodHead} {pool : ConstantPool} {hierarchy : Hierarchy}

theorem entryOf_eq_ok {code : Code} {method : MethodHead} {entry : LiveFrame}
    (h : entryOf code method = .ok entry) :
    ∃ type, MethodType.parse method.descriptor = .ok type ∧
      entry = LiveFrame.entry method.thisClass method.name method.isStatic type
        code.maxLocals.toNat := by
  unfold entryOf at h
  split at h
  · cases h
  split at h
  · cases h
  · next type htype => exact ⟨type, htype, (Except.ok.inj h).symm⟩

theorem fits_entryOf {scope : String → Prop} {entry : LiveFrame}
    (hscope : ∀ name, code.Mentions method pool name → scope name)
    (h : entryOf code method = .ok entry) : entry.Fits scope entry.locals.length := by
  obtain ⟨type, htype, rfl⟩ := entryOf_eq_ok h
  refine LiveFrame.holds_entry (LiveType.isClosed_fits scope)
    (fun name hname => Option.some.inj hname ▸ hscope _ (.ofMethod rfl))
    (fun parameter hparameter => LiveType.fits_ofField fun name hname => ?_) _
  exact hscope name (.ofDescriptor htype ⟨parameter, List.mem_append_left _ hparameter, hname⟩)

theorem flowOf_eq_ok {entry : LiveFrame} {flow : Flow}
    (h : flowOf code method pool hierarchy entry = .ok flow) :
    flow.blocks = code.blocks ∧ flow.context = ⟨pool, method.thisClass, code.instructions⟩ ∧
      flow.ancestry.hierarchy = hierarchy := by
  obtain ⟨types, -, h⟩ := Success.bind_eq_ok.mp h
  cases h
  exact ⟨rfl, rfl, rfl⟩

/-- All that the method mentions is all that its instructions and handlers bring in. -/
theorem scope_flowOf {scope : String → Prop} {entry : LiveFrame} {flow : Flow}
    (hscope : ∀ name, code.Mentions method pool name → scope name)
    (h : flowOf code method pool hierarchy entry = .ok flow) :
    flow.context.Fits scope ∧
      ∀ handler ∈ flow.handlers, ∀ name, handler.2.name? = some name → scope name := by
  obtain ⟨types, htypes, h⟩ := Success.bind_eq_ok.mp h
  cases h
  refine ⟨⟨hscope _ (.ofMethod rfl), ?_⟩, ?_⟩
  · intro insn hinsn index hindex name hname
    exact hscope name (.ofConstant hinsn hindex hname)
  · rintro ⟨handler, type⟩ hhandler name hname
    have htype := (List.forall₂_iff_zip.mp (Success.mapM_eq_ok.mp htypes)).2 hhandler
    have hmem := (List.of_mem_zip hhandler).1
    exact hscope name (.ofHandler hmem htype hname)

theorem fits_flowOf {entry : LiveFrame} {flow : Flow}
    (hrooted : hierarchy.IsRooted (code.Mentions method pool))
    (h : flowOf code method pool hierarchy entry = .ok flow) :
    flow.Fits (code.Mentions method pool) := by
  obtain ⟨-, -, rfl⟩ := flowOf_eq_ok h
  have hscope : ∀ name, code.Mentions method pool name →
      flow.ancestry.hierarchy.InScope (code.Mentions method pool) name :=
    fun name hname => .inr ⟨name, hname, .refl _⟩
  obtain ⟨hcontext, hhandlers⟩ := scope_flowOf hscope h
  exact ⟨hrooted, hcontext, hhandlers⟩

/-! ## Soundness -/

/-- When the frames of a method have settled, nothing is left to be done for blocks with a frame,
whatever it means that frames are covered. -/
theorem settled_flowOf {entry : LiveFrame} {flow : Flow} {state : FlowState}
    {good : LiveFrame → Prop} {below : LiveFrame → LiveFrame → Prop}
    (hflow : flowOf code method pool hierarchy entry = .ok flow) (hcovers : flow.Covers good below)
    (hentry : good entry) (hloop : flow.loop (flow.start entry) = .ok state) :
    flow.Tracks good below entry state ∧
      ∀ block ∈ flow.blocks, ∀ frame, state.frame? block.start = some frame →
        flow.IsDone (Flow.Meets below state) state.maxStack block frame := by
  obtain ⟨hblocks, hcontext, -⟩ := flowOf_eq_ok hflow
  have hstarts : ∀ block ∈ flow.blocks, block.start < flow.context.instructions.size := by
    rw [hblocks, hcontext]
    exact fun _ => Code.start_lt_of_mem_blocks
  have hfirst : flow.blocks ≠ [] → (flow.blockAt? 0).isSome := by
    intro hne
    obtain ⟨block, rest, heq⟩ := List.exists_cons_of_ne_nil hne
    have hzero : block.start = 0 := Code.start_of_blocks_eq_cons (hblocks.symm.trans heq)
    rw [Flow.blockAt?, heq, List.find?_cons_of_pos (by simpa using hzero), Option.isSome_some]
  obtain ⟨htracks, hpending⟩ :=
    Flow.loop_tracks hcovers (Flow.start_tracks hcovers hentry hstarts hfirst) hloop
  refine ⟨htracks, fun block hblock frame hframe => ?_⟩
  have hnodup : (flow.blocks.map (·.start)).Nodup := hblocks ▸ code.nodup_start_blocks
  refine (htracks.done _ block frame (find?_label_of_mem _ hnodup hblock) hframe).resolve_left ?_
  rw [hpending]
  exact List.not_mem_nil

/-- The frame at the beginning of a block. -/
def frameAt? (a : Analysis) (label : Label) : Option LiveFrame :=
  (a.frames.find? (·.1.start == label)).map (·.2)

/-- Every block is listed with its frame. -/
theorem blockFrames_spec {blocks : List Block} {state : FlowState}
    {frames : List (Block × LiveFrame)} (h : blockFrames blocks state = .ok frames) :
    frames.map (·.1) = blocks ∧ ∀ entry ∈ frames, state.frame? entry.1.start = some entry.2 := by
  have hall := Success.mapM_eq_ok.mp h
  clear h
  induction hall with
  | nil => exact ⟨rfl, by simp⟩
  | @cons block entry blocks frames hentry _ ih =>
    split at hentry
    · next hframe =>
      cases hentry
      exact ⟨by rw [List.map_cons, ih.1], List.forall_mem_cons.mpr ⟨hframe, ih.2⟩⟩
    · cases hentry

/-- The frames of an analysis are those that have settled from the entry frame on. -/
theorem ofCode_eq_ok {a : Analysis} (h : ofCode code method pool hierarchy = .ok a) :
    ∃ flow state, entryOf code method = .ok a.entry ∧
      flowOf code method pool hierarchy a.entry = .ok flow ∧
      flow.loop (flow.start a.entry) = .ok state ∧
      blockFrames flow.blocks state = .ok a.frames ∧ a.maxStack = state.maxStack := by
  obtain ⟨entry, hentry, h⟩ := Success.bind_eq_ok.mp h
  obtain ⟨flow, hflow, h⟩ := Success.bind_eq_ok.mp h
  obtain ⟨state, hloop, h⟩ := Success.bind_eq_ok.mp h
  obtain ⟨frames, hframes, h⟩ := Success.bind_eq_ok.mp h
  cases h
  exact ⟨flow, state, hentry, hflow, hloop, hframes, rfl⟩

theorem map_fst_frames {a : Analysis} (h : ofCode code method pool hierarchy = .ok a) :
    a.frames.map (·.1) = code.blocks := by
  obtain ⟨flow, state, -, hflow, -, hframes, -⟩ := ofCode_eq_ok h
  exact (blockFrames_spec hframes).1.trans (flowOf_eq_ok hflow).1

theorem frameAt?_of_mem {a : Analysis} (h : a.frames.map (·.1) = code.blocks) {block : Block}
    {frame : LiveFrame} (hmem : (block, frame) ∈ a.frames) :
    a.frameAt? block.start = some frame := by
  have hnodup : (a.frames.map (·.1.start)).Nodup := by
    have hstarts := code.nodup_start_blocks
    rwa [← h, List.map_map] at hstarts
  rw [frameAt?, find?_label_of_mem (·.1.start) hnodup hmem, Option.map_some]

/-- Where a block begins, the listed frame is the one that was found. -/
theorem find?_frames {state : FlowState} {label : Label} {frames : List (Block × LiveFrame)}
    (hframes : ∀ entry ∈ frames, state.frame? entry.1.start = some entry.2)
    (hblock : ((frames.map (·.1)).find? (·.start == label)).isSome) :
    (frames.find? (·.1.start == label)).map (·.2) = state.frame? label := by
  rw [List.find?_map, Option.isSome_map] at hblock
  obtain ⟨entry, hentry⟩ := Option.isSome_iff_exists.mp hblock
  have hfound := List.find?_some hentry
  have hstart : entry.1.start = label := eq_of_beq hfound
  have hframe := hframes entry (List.mem_of_find?_eq_some hentry)
  rw [hstart] at hframe
  rw [hframe]
  exact congrArg (Option.map (·.2)) hentry

/-- The frames that an analysis holds are sound, whatever frames the class file recorded: the
entry frame is covered by that of the first block, and every block can be followed from its own,
with all that comes out covered where it goes. -/
theorem ofCode_sound {a : Analysis} (hrooted : hierarchy.IsRooted (code.Mentions method pool))
    (h : ofCode code method pool hierarchy = .ok a) :
    ∃ flow, flowOf code method pool hierarchy a.entry = .ok flow ∧
      entryOf code method = .ok a.entry ∧ a.frames.map (·.1) = code.blocks ∧
      (∀ block frame rest, a.frames = (block, frame) :: rest →
        hierarchy.FrameBelow a.entry frame) ∧
      ∀ block frame, (block, frame) ∈ a.frames → flow.IsStable a.frameAt? block frame := by
  obtain ⟨entry, hentry, h⟩ := Success.bind_eq_ok.mp h
  obtain ⟨flow, hflow, h⟩ := Success.bind_eq_ok.mp h
  obtain ⟨state, hloop, h⟩ := Success.bind_eq_ok.mp h
  obtain ⟨frames, hframes, h⟩ := Success.bind_eq_ok.mp h
  cases h
  obtain ⟨hblocks, -, rfl⟩ := flowOf_eq_ok hflow
  have hentryFits : entry.Fits (flow.ancestry.hierarchy.InScope (code.Mentions method pool))
      entry.locals.length := fits_entryOf (fun name hname => .inr ⟨name, hname, .refl _⟩) hentry
  obtain ⟨htracks, hdone⟩ := settled_flowOf hflow
    ((fits_flowOf hrooted hflow).covers entry.locals.length) hentryFits hloop
  obtain ⟨hmap, hlisted⟩ := blockFrames_spec hframes
  -- The frames that are listed are those of the state, wherever there is one.
  have hupwards :
      flow.Upwards state.frame? (Analysis.frameAt? ⟨entry, frames, state.maxStack⟩) := by
    intro label frame hframe
    have hblock := (htracks.reached label frame hframe).2
    rw [Flow.blockAt?, ← hmap] at hblock
    exact ⟨frame, (find?_frames hlisted hblock).trans hframe, .refl _⟩
  refine ⟨flow, hflow, hentry, hmap.trans hblocks, ?_, ?_⟩
  · rintro block frame rest rfl
    have hzero : block.start = 0 := Code.start_of_blocks_eq_cons (hblocks.symm.trans hmap.symm)
    have hne : flow.blocks ≠ [] := hmap ▸ List.cons_ne_nil _ _
    obtain ⟨known, hknown, hbelow⟩ := htracks.entry hne
    have hframe := hlisted (block, frame) List.mem_cons_self
    rw [hzero, hknown] at hframe
    obtain rfl : known = frame := Option.some.inj hframe
    exact hbelow
  · intro block frame hmem
    have hblock : block ∈ flow.blocks := hmap ▸ List.mem_map_of_mem hmem
    exact hupwards.isStable (hdone block hblock frame (hlisted _ hmem)).isStable

end Analysis

/-! ## A method with a branch and a handler -/

/-- A method that forgets its receiver, and what is thrown meanwhile. -/
def Code.forgetting : Code where
  maxStack := 1
  maxLocals := 1
  instructions := #[.slot Opcode.aload 0 .short, .branch Opcode.ifNull 4,
    .simple Opcode.aconstNull, .slot Opcode.astore 0 .short, .simple Opcode.returnVoid,
    .simple Opcode.pop, .simple Opcode.returnVoid]
  sourceOffsets := #[]
  handlers := [⟨2, 4, 5, none⟩]
  attributes := []

def MethodHead.forget : MethodHead := ⟨"A", "forget", "()V", false⟩

/-- Two classes below the root. -/
def Hierarchy.small : Hierarchy :=
  ⟨[⟨"A", some ClassName.object, [], false⟩,
    ⟨ClassName.throwable, some ClassName.object, [], false⟩,
    ⟨ClassName.object, none, [], false⟩], []⟩

theorem Hierarchy.isRooted_small :
    small.IsRooted (Code.forgetting.Mentions .forget .empty) := by
  have hobject : small.resolve? ClassName.object = some ⟨ClassName.object, none, [], false⟩ := by
    decide +kernel
  have hthrowable : small.resolve? ClassName.throwable =
      some ⟨ClassName.throwable, some ClassName.object, [], false⟩ := by
    decide +kernel
  have hclass : small.resolve? "A" = some ⟨"A", some ClassName.object, [], false⟩ := by
    decide +kernel
  refine isRooted_of_closed ["A", ClassName.throwable, ClassName.object] ?_ ?_ ?_
  · intro name hname
    cases hname with
    | ofMethod h => exact h ▸ List.mem_cons_self
    | ofDescriptor h hname =>
      have hparse : MethodType.parse MethodHead.forget.descriptor = .ok ⟨[], none⟩ := by
        decide +kernel
      obtain rfl := Except.ok.inj (hparse.symm.trans h)
      obtain ⟨t, ht, -⟩ := hname
      cases ht
    | ofHandler hhandler h hname =>
      obtain rfl := List.mem_singleton.mp hhandler
      obtain rfl := Except.ok.inj h
      exact Option.some.inj hname ▸ List.mem_cons_of_mem _ List.mem_cons_self
    | ofConstant hinsn hindex hname =>
      simp only [Code.forgetting, List.mem_toArray, List.mem_cons, List.not_mem_nil, or_false]
        at hinsn
      rcases hinsn with rfl | rfl | rfl | rfl | rfl | rfl | rfl <;> cases hindex
  · intro name hname
    simp only [List.mem_cons, List.not_mem_nil, or_false] at hname
    rcases hname with rfl | rfl | rfl
    · exact ⟨_, hclass, by simp [ClassInfo.supertypes]⟩
    · exact ⟨_, hthrowable, by simp [ClassInfo.supertypes]⟩
    · exact ⟨_, hobject, by simp [ClassInfo.supertypes]⟩
  · intro name hname
    simp only [List.mem_cons, List.not_mem_nil, or_false] at hname
    rcases hname with rfl | rfl | rfl
    · exact .step hclass (by simp [ClassInfo.supertypes])
    · exact .step hthrowable (by simp [ClassInfo.supertypes])
    · exact .refl _

theorem Analysis.isSome_ofCode_forgetting :
    (ofCode .forgetting .forget .empty .small).toOption.isSome := by
  decide +kernel

theorem Analysis.ofCode_sound_forgetting :
    Hierarchy.small.IsRooted (Code.forgetting.Mentions .forget .empty) ∧
      ∃ a flow, ofCode .forgetting .forget .empty .small = .ok a ∧
        flowOf .forgetting .forget .empty .small a.entry = .ok flow ∧
          ∀ block frame, (block, frame) ∈ a.frames → flow.IsStable a.frameAt? block frame := by
  refine ⟨Hierarchy.isRooted_small, ?_⟩
  cases hrun : ofCode .forgetting .forget .empty .small with
  | error e =>
    have h := isSome_ofCode_forgetting
    rw [hrun] at h
    cases h
  | ok a =>
    obtain ⟨flow, hflow, -, -, -, hstable⟩ := ofCode_sound Hierarchy.isRooted_small hrun
    exact ⟨a, flow, rfl, hflow, hstable⟩

end ClassText
