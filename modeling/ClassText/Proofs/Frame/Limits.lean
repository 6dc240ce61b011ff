import ClassText.Proofs.Frame.Reaching
import ClassText.Proofs.Frame.Table

/-!
# Limits that are large enough

A merge leaves the height of a stack as it is, so for the height every merged
frame covers both sides (`Flow.covers_height`). Hence what was measured while
blocks were followed is the height of all stacks that are met when they are
executed from the frames that have settled (`Analysis.traces_of_mem_frames`), and
those variables that instructions use have their slots in all of these frames.
Raised to what was found, the limits of the code cover both
(`CodeChange.deriveFrames_limits`).
-/

namespace ClassText

/-! ## Variables -/

/-- How many slots a load or a store uses. -/
def Opcode.slotWidth (opcode : Opcode) : Nat :=
  if opcode ∈ [lload, dload, lstore, dstore] then 2 else 1

/-- The slots of variables that the instruction reads or writes. -/
def Instruction.touchedSlots : Instruction → List Nat
  | .slot opcode index _ => List.range' index.toNat opcode.slotWidth
  | .increment index _ _ => [index.toNat]
  | _ => []

namespace MethodContext

variable {ctx : MethodContext} {frame after : LiveFrame} {label : Label}

theorem add_slotWidth_le_of_load {opcode : Opcode} {index : Nat} {t : LiveType}
    (h : frame.load index t = .ok after) (hwidth : opcode.slotWidth = t.width) :
    index + opcode.slotWidth ≤ frame.locals.length :=
  hwidth ▸ (LiveFrame.load_eq_ok h).2.1

theorem add_slotWidth_le_of_store {opcode : Opcode} {index : Nat} {allowed : LiveType → Bool}
    (h : frame.store index allowed = .ok after)
    (hwidth : ∀ t, allowed t = true → opcode.slotWidth = t.width) :
    index + opcode.slotWidth ≤ frame.locals.length := by
  obtain ⟨t, rest, -, hallowed, hroom, -⟩ := LiveFrame.store_eq_ok h
  exact hwidth t hallowed ▸ hroom

theorem add_slotWidth_le_of_executeSlot {opcode : Opcode} {index : Nat}
    (h : executeSlot frame opcode index = .ok after) :
    index + opcode.slotWidth ≤ frame.locals.length := by
  have hone (type : LiveType) (hwidth : opcode.slotWidth = type.width) (t : LiveType)
      (ht : (t == type) = true) : opcode.slotWidth = t.width := by
    rw [eq_of_beq ht, hwidth]
  unfold executeSlot at h
  split at h
  · exact add_slotWidth_le_of_load h rfl
  · exact add_slotWidth_le_of_load h rfl
  · exact add_slotWidth_le_of_load h rfl
  · exact add_slotWidth_le_of_load h rfl
  · obtain ⟨t, ht, -, -⟩ := LiveFrame.loadReference_eq_ok h
    exact LiveFrame.lt_of_slotType ht
  · exact add_slotWidth_le_of_store h (hone .integer rfl)
  · exact add_slotWidth_le_of_store h (hone .long rfl)
  · exact add_slotWidth_le_of_store h (hone .float rfl)
  · exact add_slotWidth_le_of_store h (hone .double rfl)
  · exact add_slotWidth_le_of_store h fun t ht =>
      (VerificationType.width_eq_one_of_isReference ht).symm
  · cases h

/-- An instruction that is executed has all the slots that it uses. -/
theorem lt_of_mem_touchedSlots {insn : Instruction} (h : ctx.execute frame label insn = .ok after)
    {slot : Nat} (hslot : slot ∈ insn.touchedSlots) : slot < frame.locals.length := by
  cases insn with
  | slot opcode index form =>
    have hexecute : executeSlot frame opcode index.toNat = .ok after := h
    exact (List.mem_range'_1.mp hslot).2.trans_le (add_slotWidth_le_of_executeSlot hexecute)
  | increment index step wide =>
    obtain rfl := List.mem_singleton.mp hslot
    obtain ⟨t, ht, -⟩ := Success.bind_eq_ok.mp h
    exact LiveFrame.lt_of_slotType ht
  | _ => cases hslot

/-! ## Executing blocks -/

/-- The instructions at these labels are executed one after the other. The frames are those before
each of them, and the last one. -/
inductive Traces (ctx : MethodContext) : LiveFrame → List Label → List LiveFrame → Prop
  | done {frame : LiveFrame} : Traces ctx frame [] [frame]
  | next {frame after : LiveFrame} {label : Label} {labels : List Label} {insn : Instruction}
      {trace : List LiveFrame} (hinsn : ctx.instructions[label]? = some insn)
      (hexecute : ctx.execute frame label insn = .ok after)
      (hrest : Traces ctx after labels trace) :
      Traces ctx frame (label :: labels) (frame :: trace)

theorem Traces.exists_execute {labels : List Label} {trace : List LiveFrame}
    (h : ctx.Traces frame labels trace) (hlabel : label ∈ labels) :
    ∃ before ∈ trace, ∃ insn after, ctx.instructions[label]? = some insn ∧
      ctx.execute before label insn = .ok after := by
  induction h with
  | done => cases hlabel
  | next hinsn hexecute _ ih =>
    rcases List.mem_cons.mp hlabel with rfl | hlabel
    · exact ⟨_, List.mem_cons_self, _, _, hinsn, hexecute⟩
    · obtain ⟨before, hbefore, hexecuted⟩ := ih hlabel
      exact ⟨before, List.mem_cons_of_mem _ hbefore, hexecuted⟩

end MethodContext

namespace Flow

variable {flow : Flow}

/-- A merge leaves the height of the stack as it is, and the number of variables. -/
theorem covers_height (flow : Flow) (slots : Nat) :
    flow.Covers (fun frame => frame.locals.length = slots)
      fun frame known => frame.stackSize = known.stackSize where
  refl := fun _ => rfl
  trans := Eq.trans
  preserves := {
    execute := fun hframe hexecute =>
      (MethodContext.execute_effect hexecute).locals.length_eq.trans hframe
    caught := fun _ hframe => hframe
    merge := by
      intro label frame incoming merged hframe _ hmerged
      obtain ⟨-, rfl, -⟩ := Ancestry.mergeFrames_eq_ok hmerged
      exact Ancestry.length_mergeAll.trans hframe }
  merge := fun _ _ hmerged => Ancestry.stackSize_of_mergeFrames hmerged

/-- What was measured on the way is the height of all stacks that are met. -/
theorem Passes.traces {meets : Label → LiveFrame → Prop} {limit : Nat} {frame last : LiveFrame}
    {labels : List Label} (h : flow.Passes meets limit frame labels last)
    (hheight : frame.stackSize ≤ limit)
    (hlabels : ∀ label ∈ labels, label < flow.context.instructions.size) :
    ∃ trace, flow.context.Traces frame labels trace ∧ ∀ met ∈ trace,
      met.stackSize ≤ limit ∧ met.locals.length = frame.locals.length := by
  induction h with
  | @done frame => exact ⟨[frame], .done, List.forall_mem_singleton.mpr ⟨hheight, rfl⟩⟩
  | next _ hexecute hafter _ _ ih =>
    obtain ⟨hlt, hlabels⟩ := List.forall_mem_cons.mp hlabels
    obtain ⟨trace, htrace, hall⟩ := ih hafter hlabels
    have hlength := (MethodContext.execute_effect hexecute).locals.length_eq
    rw [Array.getD, dif_pos hlt] at hexecute
    refine ⟨_, .next (Array.getElem?_eq_getElem hlt) hexecute htrace,
      List.forall_mem_cons.mpr ⟨⟨hheight, rfl⟩, fun met hmet => ?_⟩⟩
    exact ⟨(hall met hmet).1, (hall met hmet).2.trans hlength⟩

end Flow

/-! ## What was measured -/

namespace Analysis

variable {code : Code} {method : MethodHead} {pool : ConstantPool} {hierarchy : Hierarchy}
  {a : Analysis} {block : Block} {frame : LiveFrame}

theorem settled_height (h : ofCode code method pool hierarchy = .ok a) :
    ∃ flow state, flowOf code method pool hierarchy a.entry = .ok flow ∧
      (∀ listed ∈ a.frames, state.frame? listed.1.start = some listed.2) ∧
      (∀ label frame, state.frame? label = some frame → frame.locals.length = a.maxLocals) ∧
      ∀ listed ∈ a.frames, flow.IsDone
        (Flow.Meets (fun frame known => frame.stackSize = known.stackSize) state)
        a.maxStack listed.1 listed.2 := by
  obtain ⟨flow, state, -, hflow, hloop, hframes, hmax⟩ := ofCode_eq_ok h
  obtain ⟨hmap, hlisted⟩ := blockFrames_spec hframes
  obtain ⟨htracks, hdone⟩ := settled_flowOf hflow (flow.covers_height a.maxLocals) rfl hloop
  refine ⟨flow, state, hflow, hlisted, htracks.holds.frames, fun listed hmem => ?_⟩
  rw [hmax]
  exact hdone _ (hmap ▸ List.mem_map_of_mem hmem) _ (hlisted listed hmem)

/-- A block can be executed from its frame, and all frames on the way are as large as was found. -/
theorem traces_of_mem_frames (h : ofCode code method pool hierarchy = .ok a)
    (hmem : (block, frame) ∈ a.frames) :
    ∃ trace, MethodContext.Traces ⟨pool, method.thisClass, code.instructions⟩ frame block.labels
        trace ∧ ∀ met ∈ trace, met.stackSize ≤ a.maxStack ∧ met.locals.length = a.maxLocals := by
  obtain ⟨flow, state, hflow, hlisted, hslots, hdone⟩ := settled_height h
  obtain ⟨-, hcontext, -⟩ := flowOf_eq_ok hflow
  have hblock : block ∈ code.blocks := map_fst_frames h ▸ List.mem_map_of_mem hmem
  have hlabels : ∀ label ∈ block.labels, label < flow.context.instructions.size := by
    rw [hcontext]
    exact fun label => Code.lt_of_mem_labels hblock
  obtain ⟨last, targets, hpasses, -⟩ := (hdone _ hmem).passes
  obtain ⟨trace, htrace, hall⟩ := hpasses.traces (hdone _ hmem).height hlabels
  refine ⟨trace, hcontext ▸ htrace, fun met hmet => ⟨(hall met hmet).1, ?_⟩⟩
  exact (hall met hmet).2.trans (hslots _ _ (hlisted _ hmem))

theorem exists_frame_of_mem_blocks (h : ofCode code method pool hierarchy = .ok a)
    (hblock : block ∈ code.blocks) : ∃ frame, (block, frame) ∈ a.frames := by
  rw [← map_fst_frames h] at hblock
  obtain ⟨listed, hmem, rfl⟩ := List.mem_map.mp hblock
  exact ⟨listed.2, hmem⟩

/-- All slots of variables that the instructions use are there. -/
theorem lt_maxLocals (h : ofCode code method pool hierarchy = .ok a) {label : Label}
    {insn : Instruction} (hinsn : code.instructions[label]? = some insn) {slot : Nat}
    (hslot : slot ∈ insn.touchedSlots) : slot < a.maxLocals := by
  obtain ⟨block, hblock, hlabel⟩ :=
    Code.exists_block_of_lt (Array.getElem?_eq_some_iff.mp hinsn).1
  obtain ⟨frame, hmem⟩ := exists_frame_of_mem_blocks h hblock
  obtain ⟨trace, htrace, hall⟩ := traces_of_mem_frames h hmem
  obtain ⟨before, hbefore, insn', after, hinsn', hexecute⟩ := htrace.exists_execute hlabel
  obtain rfl := Option.some.inj (hinsn.symm.trans hinsn')
  exact (hall before hbefore).2 ▸ MethodContext.lt_of_mem_touchedSlots hexecute hslot

/-- A handler has a frame whose stack was measured. If it guards an instruction, only the
exception is on this stack. -/
theorem frameAt?_handler (h : ofCode code method pool hierarchy = .ok a) {handler : Handler}
    (hhandler : handler ∈ code.handlers) (htarget : handler.target < code.instructions.size) :
    ∃ frame, a.frameAt? handler.target = some frame ∧ frame.stackSize ≤ a.maxStack ∧
      ∀ label < code.instructions.size, handler.start ≤ label → label < handler.stop →
        frame.stackSize = 1 := by
  have hstarts : code.StartsBlock handler.target := .handler hhandler (by simp)
  obtain ⟨block, hblock, hstart⟩ := Code.exists_start_iff.mpr ⟨hstarts, htarget⟩
  obtain ⟨frame, hmem⟩ := exists_frame_of_mem_blocks h hblock
  obtain ⟨flow, state, hflow, hlisted, -, hdone⟩ := settled_height h
  refine ⟨frame, hstart ▸ frameAt?_of_mem (map_fst_frames h) hmem, (hdone _ hmem).height, ?_⟩
  intro label hlabel hfrom hto
  obtain ⟨guarded, hguarded, hin⟩ := Code.exists_block_of_lt hlabel
  obtain ⟨frame', hmem'⟩ := exists_frame_of_mem_blocks h hguarded
  obtain ⟨type, hcovering⟩ := (exists_mem_covering hflow).mpr ⟨hhandler, hfrom, hto⟩
  obtain ⟨last, targets, hpasses, -⟩ := (hdone _ hmem').passes
  obtain ⟨before, hmeets⟩ := hpasses.caught hin
  obtain ⟨known, hknown, hheight⟩ := hmeets _ hcovering
  have hframe := hlisted _ hmem
  rw [hstart, hknown] at hframe
  obtain rfl : known = frame := Option.some.inj hframe
  exact hheight.symm

end Analysis

/-! ## Limits -/

theorem le_max_ofNat (limit : UInt16) (found : Nat) :
    limit ≤ max limit (.ofNat found) ∧
      (found < 65536 → found ≤ (max limit (.ofNat found)).toNat) := by
  have hmax : max limit (.ofNat found) = if limit ≤ .ofNat found then .ofNat found else limit := rfl
  rw [hmax]
  split
  · next hle => exact ⟨hle, fun hfits => (UInt16.toNat_ofNat_of_lt' hfits).ge⟩
  · next hnot =>
    refine ⟨UInt16.le_refl limit, fun hfits => ?_⟩
    rw [UInt16.le_iff_toNat_le, UInt16.toNat_ofNat_of_lt' hfits] at hnot
    omega

/-- Deriving the frames of a method does not lower its limits. If what was found fits, the one for
the stack is enough wherever a block is executed from its frame, and where handlers begin, and the
one for variables is enough for all slots that instructions use. -/
theorem CodeChange.deriveFrames_limits {code after : Code} {pool grown : ConstantPool}
    {method : MethodHead} {hierarchy : Hierarchy}
    (h : CodeChange.deriveFrames method hierarchy (code, pool) = (.ok (), after, grown)) :
    ∃ a, Analysis.ofCode code method pool hierarchy = .ok a ∧
      a.frames.map (·.1) = code.blocks ∧
      code.maxStack ≤ after.maxStack ∧ code.maxLocals ≤ after.maxLocals ∧
      (a.maxStack < 65536 →
        (∀ block frame, (block, frame) ∈ a.frames → ∃ trace,
          MethodContext.Traces ⟨pool, method.thisClass, code.instructions⟩ frame block.labels
              trace ∧
            ∀ met ∈ trace, met.stackSize ≤ after.maxStack.toNat) ∧
        ∀ handler ∈ code.handlers, handler.target < code.instructions.size →
          ∃ frame, a.frameAt? handler.target = some frame ∧
            frame.stackSize ≤ after.maxStack.toNat ∧
            ∀ label < code.instructions.size, handler.start ≤ label → label < handler.stop →
              frame.stackSize = 1) ∧
      (a.maxLocals < 65536 → ∀ (label : Label) (insn : Instruction),
        code.instructions[label]? = some insn →
          ∀ slot ∈ insn.touchedSlots, slot < after.maxLocals.toNat) := by
  obtain ⟨a, name, table, ha, rfl⟩ := deriveFrames_eq_ok h
  obtain ⟨hstackOld, hstack⟩ := le_max_ofNat code.maxStack a.maxStack
  obtain ⟨hlocalsOld, hlocals⟩ := le_max_ofNat code.maxLocals a.maxLocals
  refine ⟨a, ha, Analysis.map_fst_frames ha, hstackOld, hlocalsOld, fun hfits => ⟨?_, ?_⟩, ?_⟩
  · intro block frame hmem
    obtain ⟨trace, htrace, hall⟩ := Analysis.traces_of_mem_frames ha hmem
    exact ⟨trace, htrace, fun met hmet => (hall met hmet).1.trans (hstack hfits)⟩
  · intro handler hhandler htarget
    obtain ⟨frame, hframe, hheight, hcaught⟩ := Analysis.frameAt?_handler ha hhandler htarget
    exact ⟨frame, hframe, hheight.trans (hstack hfits), hcaught⟩
  · intro hfits label insn hinsn slot hslot
    exact (Analysis.lt_maxLocals ha hinsn hslot).trans_le (hlocals hfits)

/-- The limits that were derived for a method whose handler guards a loop. -/
theorem CodeChange.deriveFrames_limits_counting :
    CodeChange.deriveFrames .count .small (.counting, .empty) = (.ok (), .counted, .counted) ∧
      ∃ a, Analysis.ofCode .counting .count .empty .small = .ok a ∧ a.maxStack = 1 ∧
        a.maxLocals = 4 ∧
        (∀ block frame, (block, frame) ∈ a.frames → ∃ trace,
          MethodContext.Traces ⟨.empty, "A", Code.counting.instructions⟩ frame block.labels trace ∧
            ∀ met ∈ trace, met.stackSize ≤ Code.counted.maxStack.toNat) ∧
        (∃ frame, a.frameAt? 7 = some frame ∧ frame.stackSize = 1) ∧
        3 < Code.counted.maxLocals.toNat := by
  have hrun : (show Except ClassError Unit × Code × ConstantPool from
      CodeChange.deriveFrames .count .small (.counting, .empty)) =
        (.ok (), .counted, .counted) := by
    decide +kernel
  have hfound : (Analysis.ofCode .counting .count .empty .small).map
      (fun a => (a.maxStack, a.maxLocals)) = .ok (1, 4) := by
    decide +kernel
  obtain ⟨a, ha, -, -, -, hstack, hlocals⟩ := deriveFrames_limits hrun
  obtain ⟨a', ha', hlimits⟩ := Success.map_eq_ok.mp hfound
  obtain rfl := Except.ok.inj (ha.symm.trans ha')
  obtain ⟨hmaxStack, hmaxLocals⟩ := Prod.mk.inj hlimits
  obtain ⟨hblocks, hhandlers⟩ := hstack (by rw [hmaxStack]; decide)
  obtain ⟨frame, hframe, -, hcaught⟩ := hhandlers ⟨2, 6, 7, none⟩ List.mem_cons_self (by decide)
  exact ⟨hrun, a, ha, hmaxStack, hmaxLocals, hblocks,
    ⟨frame, hframe, hcaught 2 (by decide) (by decide) (by decide)⟩,
    hlocals (by rw [hmaxLocals]; decide) 1 _ rfl 3 (by decide)⟩

end ClassText
