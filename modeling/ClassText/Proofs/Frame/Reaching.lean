import ClassText.Proofs.Frame.Analysis
import ClassText.Proofs.Frame.Faults

/-!
# Code that is reached

Control goes from a block to the targets of its last instruction, to the block
behind it if that instruction falls through, and to the handlers that guard one
of its instructions (`Code.Leads`). Nothing in the analysis looks for the blocks
that can be reached in this way (`Code.Reaches`), but they are those that have
a frame when the frames have settled. So an analysis that succeeds has reached
all blocks, and one that tells of unreachable code tells of the first block that
was not reached (`Analysis.reaches_ofCode`).
-/

namespace ClassText

namespace Code

/-- Control can go from the block to this label. -/
inductive Leads (code : Code) (block : Block) : Label → Prop
  | jump {insn : Instruction} {target : Label}
    (hinsn : code.instructions[block.last]? = some insn) (h : target ∈ insn.targets) :
    Leads code block target
  | fall {insn : Instruction} (hinsn : code.instructions[block.last]? = some insn)
    (h : insn.fallsThrough = true) : Leads code block block.stop
  | caught {label : Label} {handler : Handler} (hlabel : label ∈ block.labels)
    (hhandler : handler ∈ code.handlers) (hstart : handler.start ≤ label)
    (hstop : label < handler.stop) : Leads code block handler.target

/-- Control can come to the block from the first one. -/
inductive Reaches (code : Code) : Block → Prop
  | first {block : Block} (h : code.blocks.head? = some block) : Reaches code block
  | next {block next : Block} (h : Reaches code block) (hnext : next ∈ code.blocks)
    (hleads : code.Leads block next.start) : Reaches code next

theorem Reaches.mem_blocks {code : Code} {block : Block} (h : code.Reaches block) :
    block ∈ code.blocks := by
  cases h with
  | first hhead => exact List.mem_of_mem_head? hhead
  | next _ hnext => exact hnext

end Code

/-! ## Where control goes in a flow -/

namespace Flow

variable {flow : Flow} {meets : Label → LiveFrame → Prop} {limit : Nat} {frame last : LiveFrame}

theorem Passes.caught {labels : List Label} (h : flow.Passes meets limit frame labels last)
    {label : Label} (hlabel : label ∈ labels) :
    ∃ before : LiveFrame, ∀ handler ∈ flow.covering label,
      meets handler.1.target (before.caught handler.2) := by
  induction h with
  | done => cases hlabel
  | @next frame _ _ _ _ hbefore _ _ _ _ ih =>
    rcases List.mem_cons.mp hlabel with rfl | hlabel
    · exact ⟨frame, hbefore⟩
    · exact ih hlabel

/-- Wherever control can go from a block that is done, a frame was met. -/
theorem IsDone.exists_meets {block : Block} (h : flow.IsDone meets limit block frame)
    {target : Label} (hleads : flow.Leads block target) : ∃ incoming, meets target incoming := by
  obtain ⟨last, targets, hpasses, htargets, hall⟩ := h.passes
  cases hleads with
  | after htargets' hmem =>
    obtain rfl := Except.ok.inj (htargets.symm.trans htargets')
    exact ⟨last, hall target hmem⟩
  | caught hlabel hhandler heq =>
    obtain ⟨before, hbefore⟩ := hpasses.caught hlabel
    exact ⟨_, heq ▸ hbefore _ hhandler⟩

theorem mem_successors {block : Block} {insn : Instruction} {targets : List Label}
    (hinsn : flow.context.instructions[block.last]? = some insn)
    (h : flow.successors block = .ok targets) {target : Label} :
    target ∈ targets ↔ target ∈ insn.targets ∨ insn.fallsThrough = true ∧ target = block.stop := by
  unfold successors at h
  rw [Array.getD_eq_getD_getElem?, hinsn, Option.getD_some] at h
  dsimp only at h
  split at h
  · next hfalls =>
    obtain ⟨-, h⟩ := Success.check_eq_ok.mp h
    obtain rfl := Except.ok.inj h
    rw [List.mem_append, List.mem_singleton]
    tauto
  · obtain rfl := Except.ok.inj h
    tauto

/-- If nothing is asked of frames, every frame covers every other. -/
theorem covers_trivial (flow : Flow) : flow.Covers (fun _ => True) fun _ _ => True :=
  ⟨fun _ => trivial, fun _ _ => trivial,
    ⟨fun _ _ => trivial, fun _ _ => trivial, fun _ _ _ => trivial⟩, fun _ _ _ => ⟨trivial, trivial⟩⟩

end Flow

namespace Analysis

variable {code : Code} {method : MethodHead} {pool : ConstantPool} {hierarchy : Hierarchy}
  {entry : LiveFrame} {flow : Flow} {block : Block} {target : Label}

section
variable (hflow : flowOf code method pool hierarchy entry = .ok flow)
include hflow

/-- The handlers of the flow are those of the code, with the types that they catch. -/
theorem exists_mem_covering {label : Label} {handler : Handler} :
    (∃ type, (handler, type) ∈ flow.covering label) ↔
      handler ∈ code.handlers ∧ handler.start ≤ label ∧ label < handler.stop := by
  obtain ⟨types, htypes, h⟩ := Success.bind_eq_ok.mp hflow
  cases h
  have hlength := (Success.mapM_eq_ok.mp htypes).length_eq
  simp only [Flow.covering, List.mem_filter, decide_eq_true_eq, exists_and_right]
  refine and_congr_left fun _ => ⟨fun ⟨_, hmem⟩ => (List.of_mem_zip hmem).1, fun hmem => ?_⟩
  obtain ⟨i, hi, rfl⟩ := List.mem_iff_getElem.mp hmem
  have hzip : i < (code.handlers.zip types).length := by
    rw [List.length_zip, ← hlength, Nat.min_self]
    exact hi
  exact ⟨types[i], List.getElem_zip (h := hzip) ▸ List.getElem_mem hzip⟩

theorem exists_last (hblock : block ∈ code.blocks) :
    ∃ insn, code.instructions[block.last]? = some insn ∧
      flow.context.instructions[block.last]? = some insn := by
  obtain ⟨-, hcontext, -⟩ := flowOf_eq_ok hflow
  have hlast := Array.getElem?_eq_getElem (Code.last_lt_of_mem_blocks hblock)
  exact ⟨_, hlast, hcontext ▸ hlast⟩

theorem leads_of_flow (hblock : block ∈ code.blocks) (h : flow.Leads block target) :
    code.Leads block target := by
  cases h with
  | after htargets hmem =>
    obtain ⟨insn, hinsn, hlast⟩ := exists_last hflow hblock
    rcases (Flow.mem_successors hlast htargets).mp hmem with hjump | ⟨hfalls, rfl⟩
    · exact .jump hinsn hjump
    · exact .fall hinsn hfalls
  | @caught label handler hlabel hhandler heq =>
    obtain ⟨hmem, hstart, hstop⟩ := (exists_mem_covering hflow).mp ⟨handler.2, hhandler⟩
    exact heq ▸ .caught hlabel hmem hstart hstop

theorem flow_leads {targets : List Label} (htargets : flow.successors block = .ok targets)
    (h : code.Leads block target) : flow.Leads block target := by
  obtain ⟨-, hcontext, -⟩ := flowOf_eq_ok hflow
  have hlast {insn : Instruction} (hinsn : code.instructions[block.last]? = some insn) :
      flow.context.instructions[block.last]? = some insn := hcontext ▸ hinsn
  cases h with
  | jump hinsn hmem =>
    exact .after htargets ((Flow.mem_successors (hlast hinsn) htargets).mpr (.inl hmem))
  | fall hinsn hfalls =>
    exact .after htargets ((Flow.mem_successors (hlast hinsn) htargets).mpr (.inr ⟨hfalls, rfl⟩))
  | caught hlabel hhandler hstart hstop =>
    obtain ⟨type, hcovering⟩ := (exists_mem_covering hflow).mpr ⟨hhandler, hstart, hstop⟩
    exact .caught hlabel hcovering rfl

/-- Where a flow reaches a block, the code does. -/
theorem reaches_of_flow {label : Label} (h : flow.Reaches label) :
    ∀ block, flow.blockAt? label = some block → code.Reaches block := by
  obtain ⟨hblocks, -, -⟩ := flowOf_eq_ok hflow
  induction h with
  | first =>
    intro block hblock
    rw [Flow.blockAt?, hblocks] at hblock
    obtain ⟨first, rest, heq⟩ :=
      List.exists_cons_of_ne_nil (List.ne_nil_of_mem (List.mem_of_find?_eq_some hblock))
    have hzero : first.start = 0 := Code.start_of_blocks_eq_cons heq
    rw [heq, List.find?_cons_of_pos (by simpa using hzero)] at hblock
    exact .first (by rw [heq, List.head?_cons, hblock])
  | @next label target block _ hblock hleads ih =>
    intro next hnext
    have hmem {l : Label} {b : Block} (hb : flow.blockAt? l = some b) : b ∈ code.blocks :=
      hblocks ▸ List.mem_of_find?_eq_some hb
    have hfound := List.find?_some hnext
    have hstart : next.start = target := eq_of_beq hfound
    exact .next (ih block hblock) (hmem hnext)
      (hstart ▸ leads_of_flow hflow (hmem hblock) hleads)

/-- When frames have settled, exactly the blocks that are reached have one. -/
theorem exists_frame?_iff {state : FlowState}
    (hloop : flow.loop (flow.start entry) = .ok state) (hblock : block ∈ code.blocks) :
    (∃ frame, state.frame? block.start = some frame) ↔ code.Reaches block := by
  obtain ⟨hblocks, -, -⟩ := flowOf_eq_ok hflow
  obtain ⟨htracks, hdone⟩ := settled_flowOf hflow flow.covers_trivial trivial hloop
  constructor
  · rintro ⟨frame, hframe⟩
    have hnodup : (flow.blocks.map (·.start)).Nodup := hblocks ▸ code.nodup_start_blocks
    exact reaches_of_flow hflow (htracks.reached _ frame hframe).1 block
      (find?_label_of_mem _ hnodup (hblocks ▸ hblock))
  · intro hreaches
    clear hblock
    induction hreaches with
    | @first block hhead =>
      obtain ⟨rest, heq⟩ := List.head?_eq_some_iff.mp hhead
      have hne : flow.blocks ≠ [] := by
        rw [hblocks, heq]
        exact List.cons_ne_nil _ _
      obtain ⟨frame, hframe, -⟩ := htracks.entry hne
      exact ⟨frame, Code.start_of_blocks_eq_cons heq ▸ hframe⟩
    | @next block next hreaches _ hleads ih =>
      obtain ⟨frame, hframe⟩ := ih
      have hdone := hdone block (hblocks ▸ hreaches.mem_blocks) frame hframe
      obtain ⟨last, targets, -, htargets, -⟩ := hdone.passes
      obtain ⟨-, known, hknown, -⟩ := hdone.exists_meets (flow_leads hflow htargets hleads)
      exact ⟨known, hknown⟩

end

/-- The block that fails to have a frame is the first one without. -/
theorem blockFrames_eq_error {state : FlowState} {e : FlowFault} :
    ∀ {blocks : List Block}, blockFrames blocks state = .error e →
      ∃ before block behind, blocks = before ++ block :: behind ∧
        e.label = some block.start ∧ state.frame? block.start = none ∧
          ∀ earlier ∈ before, ∃ frame, state.frame? earlier.start = some frame
  | [], h => nomatch h
  | block :: blocks, h => by
    rw [blockFrames, List.mapM_cons] at h
    cases hframe : state.frame? block.start with
    | none =>
      rw [hframe] at h
      cases h
      exact ⟨[], block, blocks, rfl, rfl, hframe, nofun⟩
    | some frame =>
      rw [hframe] at h
      rcases Success.bind_eq_error.mp h with h | ⟨first, -, h⟩
      · cases h
      rcases Success.bind_eq_error.mp h with h | ⟨rest, -, h⟩
      · obtain ⟨before, failing, behind, rfl, hlabel, hnone, hearlier⟩ := blockFrames_eq_error h
        exact ⟨block :: before, failing, behind, rfl, hlabel, hnone,
          List.forall_mem_cons.mpr ⟨⟨frame, hframe⟩, hearlier⟩⟩
      · cases h

/-- An analysis that succeeds has reached all blocks, and if it tells of unreachable code, it tells
of the first block that was not reached. -/
theorem reaches_ofCode (code : Code) (method : MethodHead) (pool : ConstantPool)
    (hierarchy : Hierarchy) :
    (∀ a, ofCode code method pool hierarchy = .ok a →
        a.frames.map (·.1) = code.blocks ∧ ∀ block ∈ code.blocks, code.Reaches block) ∧
      ∀ label, ofCode code method pool hierarchy = .error ⟨label, .unreachable⟩ →
        ∃ before block behind, code.blocks = before ++ block :: behind ∧
          label = some block.start ∧ ¬code.Reaches block ∧
            ∀ earlier ∈ before, code.Reaches earlier := by
  refine ⟨fun a h => ?_, fun label h => ?_⟩
  · obtain ⟨flow, state, -, hflow, hloop, hframes, -⟩ := ofCode_eq_ok h
    obtain ⟨hblocks, -, -⟩ := flowOf_eq_ok hflow
    obtain ⟨hmap, hlisted⟩ := blockFrames_spec hframes
    refine ⟨hmap.trans hblocks, fun block hblock => ?_⟩
    obtain ⟨listed, hmem, rfl⟩ := List.mem_map.mp (hmap.trans hblocks ▸ hblock)
    exact (exists_frame?_iff hflow hloop hblock).mp ⟨listed.2, hlisted listed hmem⟩
  · obtain ⟨entry, flow, state, -, hflow, hloop, hframes⟩ := ofCode_unreachable h
    obtain ⟨hblocks, -, -⟩ := flowOf_eq_ok hflow
    rw [hblocks] at hframes
    obtain ⟨before, block, behind, heq, hlabel, hnone, hearlier⟩ := blockFrames_eq_error hframes
    refine ⟨before, block, behind, heq, hlabel, fun hreaches => ?_, fun earlier hmem => ?_⟩
    · obtain ⟨frame, hframe⟩ := (exists_frame?_iff hflow hloop hreaches.mem_blocks).mpr hreaches
      rw [hnone] at hframe
      cases hframe
    · have hblock : earlier ∈ code.blocks := heq ▸ List.mem_append_left _ hmem
      exact (exists_frame?_iff hflow hloop hblock).mp (hearlier earlier hmem)

end Analysis

/-! ## A method that skips an instruction -/

def Code.skipping : Code where
  maxStack := 0
  maxLocals := 1
  instructions := #[.branch Opcode.goto 2, .simple Opcode.returnVoid, .simple Opcode.returnVoid]
  sourceOffsets := #[]
  handlers := []
  attributes := []

theorem Analysis.reaches_ofCode_skipping :
    (∃ a, ofCode .forgetting .forget .empty .small = .ok a ∧
        ∀ block ∈ Code.forgetting.blocks, Code.forgetting.Reaches block) ∧
      ofCode .skipping .forget .empty .small = .error ⟨some 1, .unreachable⟩ ∧
        Code.skipping.Reaches ⟨0, 1⟩ ∧ ¬Code.skipping.Reaches ⟨1, 2⟩ := by
  have hskip : (ofCode .skipping .forget .empty .small).map (fun _ => ()) =
      .error ⟨some 1, .unreachable⟩ := by
    decide +kernel
  have hblocks : Code.skipping.blocks = [⟨0, 1⟩, ⟨1, 2⟩, ⟨2, 3⟩] := by decide +kernel
  constructor
  · obtain ⟨a, ha⟩ := Option.isSome_iff_exists.mp isSome_ofCode_forgetting
    have hrun := Success.toOption_eq_some.mp ha
    exact ⟨a, hrun, ((reaches_ofCode ..).1 a hrun).2⟩
  · cases hrun : ofCode .skipping .forget .empty .small with
    | ok a =>
      rw [hrun] at hskip
      cases hskip
    | error e =>
      rw [hrun] at hskip
      obtain rfl := Except.error.inj hskip
      obtain ⟨before, block, behind, heq, hlabel, hnot, hall⟩ :=
        (reaches_ofCode ..).2 (some 1) hrun
      rw [hblocks] at heq
      refine ⟨rfl, ?_⟩
      rcases before with _ | ⟨first, _ | ⟨second, rest⟩⟩
      · cases heq
        cases hlabel
      · cases heq
        exact ⟨hall _ List.mem_cons_self, hnot⟩
      · have hrest : [(⟨2, 3⟩ : Block)] = rest ++ block :: behind :=
          (List.cons.inj (List.cons.inj heq).2).2
        have hmem : block ∈ [(⟨2, 3⟩ : Block)] := hrest ▸ List.mem_append_right _ List.mem_cons_self
        obtain rfl := List.mem_singleton.mp hmem
        cases hlabel

end ClassText
