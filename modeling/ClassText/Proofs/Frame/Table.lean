import ClassText.Proofs.Frame.Naming
import ClassText.Proofs.Rewriting.Settling

/-!
# The table of frames tells what was found

When the frames of a method are derived, the table that is put into its code is
read, from the entry frame of the method, as the frames that the analysis found:
one at each label that needs one, in ascending order
(`CodeChange.deriveFrames_tells`). What a frame loses on the way are unusable
variables at the end.

The names of classes have to be valid, for a type whose name is not cannot be
read back. Those in descriptors and constants always are; the hypotheses are
about the class of the method and the classes of the hierarchy.
-/

namespace ClassText

open Assembled ConstantPool PoolChange

/-! ## Labels that need frames -/

namespace Code

variable {code : Code} {label : Label}

/-- A class file has to hold a frame at the label: control can jump to it, or a handler begins
there, or control does not go on to it from the instruction before. -/
inductive NeedsFrame (code : Code) (label : Label) : Prop
  | target {origin : Label} {insn : Instruction} (hinsn : code.instructions[origin]? = some insn)
      (htarget : label ∈ insn.targets)
  | handler {handler : Handler} (hhandler : handler ∈ code.handlers)
      (htarget : handler.target = label)
  | behind {origin : Label} {insn : Instruction} (hinsn : code.instructions[origin]? = some insn)
      (hstop : insn.fallsThrough = false) (hnext : label = origin + 1)

theorem mem_frameLabelsOf {insn : Instruction} {origin : Label} :
    label ∈ frameLabelsOf insn origin ↔
      label ∈ insn.targets ∨ insn.fallsThrough = false ∧ label = origin + 1 := by
  unfold frameLabelsOf
  split
  · next hfalls => simp [hfalls]
  · next hstops =>
    rw [Bool.not_eq_true] at hstops
    rw [List.mem_cons]
    tauto

theorem mem_frameLabels : label ∈ code.frameLabels ↔ code.NeedsFrame label := by
  rw [frameLabels, List.mem_append, List.mem_flatMap, List.mem_map]
  constructor
  · rintro (⟨⟨insn, origin⟩, hmem, hlabel⟩ | ⟨handler, hhandler, htarget⟩)
    · rw [mem_zipIdx_instructions] at hmem
      rcases mem_frameLabelsOf.mp hlabel with htarget | ⟨hstop, hnext⟩
      · exact .target hmem htarget
      · exact .behind hmem hstop hnext
    · exact .handler hhandler htarget
  · rintro (⟨hinsn, htarget⟩ | ⟨hhandler, htarget⟩ | ⟨hinsn, hstop, hnext⟩)
    · exact .inl ⟨_, mem_zipIdx_instructions.mpr hinsn, mem_frameLabelsOf.mpr (.inl htarget)⟩
    · exact .inr ⟨_, hhandler, htarget⟩
    · exact .inl ⟨_, mem_zipIdx_instructions.mpr hinsn,
        mem_frameLabelsOf.mpr (.inr ⟨hstop, hnext⟩)⟩

/-- Where a frame is needed, a block begins. -/
theorem NeedsFrame.startsBlock (h : code.NeedsFrame label) : code.StartsBlock label := by
  cases h with
  | target hinsn htarget => exact .target hinsn htarget
  | handler hhandler htarget => exact .handler hhandler (by simp [htarget])
  | behind hinsn hstop hnext => exact .behind hinsn (.inr hstop) hnext

theorem map_label_neededFrames {frames : List (Block × LiveFrame)}
    (h : frames.map (·.1) = code.blocks) :
    (code.neededFrames frames).map (·.1) = code.blockStarts.filter fun label =>
      (marked code.instructions.size code.frameLabels).getD label false := by
  have hstarts : code.blockStarts = frames.map (·.1.start) := by
    rw [← map_start_blocks, ← h, List.map_map]
    rfl
  rw [neededFrames, hstarts, List.map_map, List.filter_map]
  rfl

theorem mem_label_neededFrames {frames : List (Block × LiveFrame)}
    (h : frames.map (·.1) = code.blocks) :
    label ∈ (code.neededFrames frames).map (·.1) ↔
      label < code.instructions.size ∧ code.NeedsFrame label := by
  rw [map_label_neededFrames h, List.mem_filter, getD_marked, mem_frameLabels, mem_blockStarts]
  constructor
  · rintro ⟨⟨-, hlt⟩, hneeds, -⟩
    exact ⟨hlt, hneeds⟩
  · rintro ⟨hlt, hneeds⟩
    exact ⟨⟨hneeds.startsBlock, hlt⟩, hneeds, hlt⟩

theorem ascending_neededFrames {frames : List (Block × LiveFrame)}
    (h : frames.map (·.1) = code.blocks) :
    (code.neededFrames frames).Pairwise fun known later => known.1 < later.1 := by
  rw [← List.pairwise_map (f := Prod.fst) (R := (· < ·)), map_label_neededFrames h]
  exact (List.pairwise_lt_range.filter _).filter _

end Code

/-! ## Frames that are read back -/

/-- The table tells these frames: with these offsets it is read as them from the entry frame, no
offset is cut off, there is one frame at each label that needs one, in ascending order, and each
of them is the one that was found there but for unusable variables at the end. -/
structure FrameTable.Tells (code : Code) (analysis : Analysis) (pool : ConstantPool)
    (offsets : Array Nat) (table : FrameTable) (frames : List (Label × LiveFrame)) : Prop where
  read : frames? pool offsets analysis.entry table = some frames
  offset_eq : table.offsetsFrom 0 = frames.map fun known => offsets.getD known.1 0
  ascending : frames.Pairwise fun known later => known.1 < later.1
  mem_iff : ∀ label, label ∈ frames.map (·.1) ↔
    label < code.instructions.size ∧ code.NeedsFrame label
  found : ∀ known ∈ frames, ∃ frame, analysis.frameAt? known.1 = some frame ∧
    known.2.stack = frame.stack ∧
      ∃ count, frame.locals = known.2.locals ++ List.replicate count .top

namespace Code

variable {code : Code} {method : MethodHead} {pool : ConstantPool} {hierarchy : Hierarchy}

theorem mem_neededFrames {frames : List (Block × LiveFrame)} {entry : Label × LiveFrame}
    (h : entry ∈ code.neededFrames frames) :
    ∃ block, (block, entry.2) ∈ frames ∧ block.start = entry.1 := by
  obtain ⟨⟨block, frame⟩, hmem, rfl⟩ := List.mem_map.mp h
  exact ⟨block, (List.mem_filter.mp hmem).1, rfl⟩

theorem ensures_deriveTable_tells (hthis : ClassName.isValid method.thisClass = true)
    (hnamed : hierarchy.IsNamed) :
    (code.deriveTable method hierarchy).Ensures pool fun (analysis, table) grown =>
      Analysis.ofCode code method pool hierarchy = .ok analysis ∧
        ∃ offsets frames, layout code.instructions = .ok offsets ∧
          ∀ {later : ConstantPool}, grown.Grows later →
            FrameTable.Tells code analysis later offsets table frames := by
  refine (ensures_get (P := fun p _ => p = pool) rfl).bind fun p q _ hp => ?_
  subst hp
  refine (ensures_ofExcept (P := fun a _ => Analysis.ofCode code method p hierarchy = .ok a)
    fun _ h => Success.mapError_eq_ok.mp h).bind fun a r _ hanalysis => ?_
  refine (ensures_ofExcept (P := fun offsets _ => layout code.instructions = .ok offsets)
    fun _ h => Success.mapError_eq_ok.mp h).bind fun offsets s _ hlayout => ?_
  obtain ⟨hend, rfl⟩ := layout_eq_ok_iff.mp hlayout
  have hblocks := Analysis.map_fst_frames hanalysis
  obtain ⟨hentry, hframes⟩ := Analysis.holds_ofCode hthis hnamed hanalysis
  have hholds : ∀ entry ∈ code.neededFrames a.frames,
      entry.2.Holds (LiveType.IsStorable code.instructions.size) a.entry.locals.length := by
    intro entry hneeded
    obtain ⟨block, hmem, -⟩ := mem_neededFrames hneeded
    exact hframes _ hmem
  have hnext : FrameTable.AreNext code.instructions a.entry.locals.length 0
      (code.neededFrames a.frames) :=
    ⟨ascending_neededFrames hblocks, fun entry hneeded =>
      ((mem_label_neededFrames hblocks).mp (List.mem_map_of_mem hneeded)).1,
      fun _ _ => Nat.zero_le _, hholds⟩
  refine (FrameTable.ensures_ofFrames_reads hend hentry hnext s).bind ?_
  rintro table t - ⟨hoffsets, hread⟩
  refine ensures_pure ⟨hanalysis, _, _, hlayout, fun hlater => ⟨hread hlater, ?_, ?_, ?_, ?_⟩⟩
  · rw [hoffsets, List.map_map]
    rfl
  · exact List.pairwise_map.mpr (ascending_neededFrames hblocks)
  · intro label
    rw [List.map_map]
    exact mem_label_neededFrames hblocks
  · intro known hknown
    obtain ⟨entry, hneeded, rfl⟩ := List.mem_map.mp hknown
    obtain ⟨block, hmem, hstart⟩ := mem_neededFrames hneeded
    refine ⟨entry.2, hstart ▸ Analysis.frameAt?_of_mem hblocks hmem, rfl, ?_⟩
    exact VerificationType.exists_spread_pack (hholds entry hneeded).spread

end Code

/-- Deriving the frames of a method, if it succeeds, puts a table into its code that tells, in the
pool that is left and in the layout of the code, what the analysis of the method found. -/
theorem CodeChange.deriveFrames_tells {code after : Code} {pool grown : ConstantPool}
    {method : MethodHead} {hierarchy : Hierarchy}
    (hthis : ClassName.isValid method.thisClass = true) (hnamed : hierarchy.IsNamed)
    (h : CodeChange.deriveFrames method hierarchy (code, pool) = (.ok (), after, grown)) :
    ∃ analysis offsets name table frames,
      Analysis.ofCode code method pool hierarchy = .ok analysis ∧
        Analysis.entryOf code method = .ok analysis.entry ∧
        layout code.instructions = .ok offsets ∧
        after = (code.raiseLimits analysis).withFrames name table ∧
        grown.text? name = some CodeAttribute.frameTable ∧
        FrameTable.Tells code analysis grown offsets table frames := by
  have hensures : ((CodeChange.deriveFrames method hierarchy).code code).Ensures pool
      fun after grown => ∃ analysis offsets name table frames,
        Analysis.ofCode code method pool hierarchy = .ok analysis ∧
          layout code.instructions = .ok offsets ∧
          after = (code.raiseLimits analysis).withFrames name table ∧
          grown.text? name = some CodeAttribute.frameTable ∧
          FrameTable.Tells code analysis grown offsets table frames := by
    rw [code_deriveFrames]
    refine (Code.ensures_deriveTable_tells hthis hnamed).bind ?_
    rintro ⟨analysis, table⟩ p - ⟨hanalysis, offsets, frames, hlayout, htells⟩
    refine (ensures_internText CodeAttribute.frameTable p).bind fun name q hq hname => ?_
    exact ensures_pure ⟨analysis, offsets, name, table, frames, hanalysis, hlayout, rfl, hname,
      htells hq⟩
  have hafter : (CodeChange.deriveFrames method hierarchy).code code pool = (.ok after, grown) := by
    rw [CodeChange.code, h]
    rfl
  rw [Ensures, hafter] at hensures
  obtain ⟨analysis, offsets, name, table, frames, hanalysis, hrest⟩ := hensures.2 after rfl
  obtain ⟨-, -, hentry, -⟩ := Analysis.ofCode_eq_ok hanalysis
  exact ⟨analysis, offsets, name, table, frames, hanalysis, hentry, hrest⟩

/-! ## A method that counts -/

/-- Counts in a loop, behind a parameter that takes two slots. -/
def Code.counting : Code where
  maxStack := 1
  maxLocals := 4
  instructions := #[.simple Opcode.iconst0, .slot Opcode.istore 3 .short,
    .slot Opcode.iload 3 .short, .branch Opcode.ifeq 6, .increment 3 1 false,
    .branch Opcode.goto 2, .simple Opcode.returnVoid, .simple Opcode.pop,
    .simple Opcode.returnVoid]
  sourceOffsets := #[]
  handlers := [⟨2, 6, 7, none⟩]
  attributes := []

def MethodHead.count : MethodHead := ⟨"A", "count", "(J)V", false⟩

/-- The code with a frame where the loop begins, one behind it, and one in the handler. -/
def Code.counted : Code :=
  { Code.counting with
    attributes := [⟨5, .frames [.append 2 [.integer], .same 9, .sameOne 0 (.object 4)]⟩] }

def ConstantPool.counted : ConstantPool :=
  ⟨#[none, some (.utf8 "A"), some (.classRef 1), some (.utf8 ClassName.throwable),
    some (.classRef 3), some (.utf8 CodeAttribute.frameTable)], by decide⟩

theorem CodeChange.deriveFrames_tells_counting :
    ClassName.isValid MethodHead.count.thisClass = true ∧ Hierarchy.small.IsNamed ∧
      CodeChange.deriveFrames .count .small (.counting, .empty) = (.ok (), .counted, .counted) ∧
        ∃ analysis offsets name table frames,
          Analysis.ofCode .counting .count .empty .small = .ok analysis ∧
            Code.counted = (Code.counting.raiseLimits analysis).withFrames name table ∧
            ConstantPool.counted.text? name = some CodeAttribute.frameTable ∧
            FrameTable.Tells .counting analysis .counted offsets table frames := by
  have hthis : ClassName.isValid MethodHead.count.thisClass = true := by decide +kernel
  have hnamed : Hierarchy.small.IsNamed := by
    unfold Hierarchy.IsNamed
    decide +kernel
  have hrun : (show Except ClassError Unit × Code × ConstantPool from
      CodeChange.deriveFrames .count .small (.counting, .empty)) =
        (.ok (), .counted, .counted) := by
    decide +kernel
  obtain ⟨analysis, offsets, name, table, frames, hanalysis, -, -, hafter, hname, htells⟩ :=
    deriveFrames_tells hthis hnamed hrun
  exact ⟨hthis, hnamed, hrun, analysis, offsets, name, table, frames, hanalysis, hafter, hname,
    htells⟩

end ClassText
