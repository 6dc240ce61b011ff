import ClassText.Hierarchy.Standard
import ClassText.Proofs.ConstantPool.Store
import ClassText.Proofs.Frame.Table
import ClassText.Proofs.Rewriting.Unmoved

/-!
# An old table of frames is replaced

A table of frames that was derived takes the place of the one that the code had.
The attribute is found by its name, which is a text, but what is taken out is
told by an index: that of the first constant which holds this text. A pool that
was read may hold it a second time, and then the code may have named its table by
the second constant. Such a table stays, and it stays in front of the new one.

So the derived table is the only one exactly when the code had named its tables by
the first constant (`CodeChange.deriveFrames_replaces`); it can only be otherwise
where the text stands in the pool more than once.
-/

namespace ClassText

open ConstantPool PoolChange

/-! ## Tables of frames -/

namespace ConstantPool

variable {pool grown : ConstantPool} {c : Constant} {i j : PoolIndex}

theorem IsFirst.unique (hi : pool.IsFirst c i) (hj : pool.IsFirst c j) : i = j :=
  Option.some.inj ((find?_eq_some_iff.mpr hi).symm.trans (find?_eq_some_iff.mpr hj))

/-- A constant that is first in a pool that has grown was first before, if it was there. -/
theorem IsFirst.of_grows (hgrows : pool.Grows grown) (hc : pool.get? i = some c)
    (h : grown.IsFirst c i) : pool.IsFirst c i :=
  ⟨hc, fun j hj hget => h.2 j hj (hgrows.get? hget)⟩

end ConstantPool

namespace Code

variable {code : Code} {pool grown : ConstantPool} {name : PoolIndex} {table : FrameTable}
  {a : CodeAttribute}

/-- All attributes with the name of tables of frames, whatever they hold. -/
def frameTables (code : Code) (pool : ConstantPool) : List CodeAttribute :=
  code.attributes.filter fun a => pool.text? a.name == some CodeAttribute.frameTable

theorem mem_frameTables :
    a ∈ code.frameTables pool ↔
      a ∈ code.attributes ∧ pool.text? a.name = some CodeAttribute.frameTable := by
  rw [frameTables, List.mem_filter, beq_iff_eq]

theorem frameTables_grows (hgrows : pool.Grows grown) (hnamed : code.IsNamed pool) :
    code.frameTables grown = code.frameTables pool := by
  refine List.filter_congr fun a ha => ?_
  obtain ⟨text, htext⟩ := Option.isSome_iff_exists.mp (hnamed a ha)
  rw [hgrows.text? htext, htext]

theorem isNamed_of_ofBytes {bytes : Bytes} (h : ofBytes pool bytes = .ok code) :
    code.IsNamed pool :=
  (isReadable_of_takes (MethodAttribute.codeOfBytes_eq_ok_iff.mp h)).1.isNamed

theorem frameTables_withFrames (hname : pool.text? name = some CodeAttribute.frameTable) :
    (code.withFrames name table).frameTables pool =
      (code.frameTables pool).filter (·.name != name) ++ frameAttributes name table := by
  have hnew : (frameAttributes name table).filter
      (fun a => pool.text? a.name == some CodeAttribute.frameTable) =
        frameAttributes name table := by
    refine List.filter_eq_self.mpr fun a ha => ?_
    rw [mem_frameAttributes ha, hname, beq_self_eq_true]
  rw [frameTables, attributes_withFrames, List.filter_append, hnew, List.filter_comm, frameTables]

/-- What is put in is all there is exactly if nothing is named by another index. -/
theorem frameTables_withFrames_eq_iff
    (hname : pool.text? name = some CodeAttribute.frameTable) :
    (code.withFrames name table).frameTables pool = frameAttributes name table ↔
      ∀ a ∈ code.frameTables pool, a.name = name := by
  rw [frameTables_withFrames hname, List.append_left_eq_self, List.filter_eq_nil_iff]
  simp only [bne_iff_ne, Decidable.not_not]

/-- There is nothing in the table if no frame is needed. -/
theorem table_eq_nil_iff {method : MethodHead} {hierarchy : Hierarchy} {analysis : Analysis}
    (h : code.deriveTable method hierarchy pool = (.ok (analysis, table), grown)) :
    table = [] ↔ ∀ label < code.instructions.size, ¬ code.NeedsFrame label := by
  obtain ⟨-, hanalysis, hlength⟩ := (ensures_deriveTable code method hierarchy pool).of_run h
  have hblocks := Analysis.map_fst_frames hanalysis
  rw [← List.length_eq_zero_iff, hlength, ← List.length_map (f := Prod.fst),
    List.length_eq_zero_iff, List.eq_nil_iff_forall_not_mem]
  refine forall_congr' fun label => ?_
  rw [mem_label_neededFrames hblocks, not_and]

end Code

/-! ## Deriving frames once more -/

namespace CodeChange

/-- What is left of the attributes when frames were derived. The old tables that the code has named
by the first constant with their name are gone. So the derived table, or nothing where no frame is
needed, is all that has this name exactly if all old tables were named so. -/
theorem deriveFrames_replaces {code after : Code} {method : MethodHead} {hierarchy : Hierarchy}
    {pool grown : ConstantPool} (hnamed : code.IsNamed pool)
    (h : CodeChange.deriveFrames method hierarchy (code, pool) = (.ok (), after, grown)) :
    ∃ analysis table middle name,
      code.deriveTable method hierarchy pool = (.ok (analysis, table), middle) ∧
      (table = [] ↔ ∀ label < code.instructions.size, ¬ code.NeedsFrame label) ∧
      grown.IsFirst (.utf8 CodeAttribute.frameTable) name ∧
      after.attributes =
        code.attributes.filter (·.name != name) ++ Code.frameAttributes name table ∧
      (after.frameTables grown = Code.frameAttributes name table ↔
        ∀ a ∈ code.frameTables pool, pool.IsFirst (.utf8 CodeAttribute.frameTable) a.name) := by
  obtain ⟨analysis, table, middle, name, htable, hintern, rfl⟩ := exists_table_of_deriveFrames h
  have hfirst := PoolCall.isFirst_of_internText hintern
  have hname := text?_eq_some_iff.mpr hfirst.1
  have hgrows : pool.Grows grown :=
    ((ensures_deriveTable code method hierarchy pool).of_run htable).1.trans
      ((ensures_internText CodeAttribute.frameTable middle).of_run hintern).1
  refine ⟨analysis, table, middle, name, htable, Code.table_eq_nil_iff htable, hfirst,
    attributes_withFrames .., ?_⟩
  have htables : (code.raiseLimits analysis).frameTables grown = code.frameTables pool :=
    Code.frameTables_grows hgrows hnamed
  rw [Code.frameTables_withFrames_eq_iff hname, htables]
  -- The name may have been interned before the pool grew or only now; if an attribute has it, the
  -- first constant that holds it is the same before and after.
  refine forall₂_congr fun a ha => ?_
  constructor
  · rintro rfl
    exact hfirst.of_grows hgrows (text?_eq_some_iff.mp (Code.mem_frameTables.mp ha).2)
  · intro hold
    exact (hold.extends hgrows.extends).unique hfirst

end CodeChange

/-! ## A name that stands twice in a pool -/

def ConstantPool.doubled : ConstantPool :=
  ⟨#[none, some (.utf8 CodeAttribute.frameTable), some (.utf8 CodeAttribute.frameTable)],
    by decide +kernel⟩

/-- A loop of one instruction. -/
def Code.spinning (attributes : List CodeAttribute) : Code where
  maxStack := 0
  maxLocals := 0
  instructions := #[.branch Opcode.goto 0]
  sourceOffsets := #[0, 3]
  handlers := []
  attributes := attributes

/-- The loop with a table without frames that is named by a given constant. -/
def Code.spinningBytes (name : UInt8) : Bytes :=
  [0, 0, 0, 0, 0, 0, 0, 3, 0xa7, 0, 0, 0, 0, 0, 1, 0, name, 0, 0, 0, 2, 0, 0]

def MethodHead.spinning : MethodHead := ⟨"A", "m", "()V", true⟩

namespace CodeChange

/-- The old table was named by the first constant, and the derived one takes its place. -/
theorem deriveFrames_replaces_spinning :
    Code.ofBytes .doubled (Code.spinningBytes 1) = .ok (.spinning [⟨1, .raw [0, 0]⟩]) ∧
      CodeChange.deriveFrames .spinning .standard (.spinning [⟨1, .raw [0, 0]⟩], .doubled) =
        (.ok (), .spinning [⟨1, .frames [.same 0]⟩], .doubled) ∧
      ∃ analysis table middle name,
        (Code.spinning [⟨1, .raw [0, 0]⟩]).deriveTable .spinning .standard .doubled =
          (.ok (analysis, table), middle) ∧
        table ≠ [] ∧
        (Code.spinning [⟨1, .frames [.same 0]⟩]).frameTables .doubled =
          Code.frameAttributes name table := by
  have hread : Code.ofBytes .doubled (Code.spinningBytes 1) =
      .ok (.spinning [⟨1, .raw [0, 0]⟩]) := by
    decide +kernel
  have hrun : (show Except ClassError Unit × Code × ConstantPool from
      CodeChange.deriveFrames .spinning .standard (.spinning [⟨1, .raw [0, 0]⟩], .doubled)) =
        (.ok (), .spinning [⟨1, .frames [.same 0]⟩], .doubled) := by
    decide +kernel
  obtain ⟨analysis, table, middle, name, htable, hempty, -, -, hiff⟩ :=
    deriveFrames_replaces (Code.isNamed_of_ofBytes hread) hrun
  refine ⟨hread, hrun, analysis, table, middle, name, htable, ?_, hiff.mpr ?_⟩
  · intro hnil
    have hloop : #[Instruction.branch Opcode.goto 0][0]? = some (.branch Opcode.goto 0) := rfl
    exact hempty.mp hnil 0 (by decide) (.target hloop List.mem_cons_self)
  · intro a ha
    obtain rfl := List.mem_singleton.mp (Code.mem_frameTables.mp ha).1
    exact find?_eq_some_iff.mp (by decide +kernel)

/-- The old table was named by the second constant. It is kept, and found before the new one. -/
theorem deriveFrames_keeps_spinning :
    Code.ofBytes .doubled (Code.spinningBytes 2) = .ok (.spinning [⟨2, .raw [0, 0]⟩]) ∧
      ∃ after grown,
        CodeChange.deriveFrames .spinning .standard (.spinning [⟨2, .raw [0, 0]⟩], .doubled) =
          (.ok (), after, grown) ∧
        after.frameTables grown = [⟨2, .raw [0, 0]⟩, ⟨1, .frames [.same 0]⟩] ∧
        after.attribute? grown CodeAttribute.frameTable = some ⟨2, .raw [0, 0]⟩ := by
  have hrun : (show Except ClassError Unit × Code × ConstantPool from
      CodeChange.deriveFrames .spinning .standard (.spinning [⟨2, .raw [0, 0]⟩], .doubled)) =
        (.ok (), .spinning [⟨2, .raw [0, 0]⟩, ⟨1, .frames [.same 0]⟩], .doubled) := by
    decide +kernel
  exact ⟨by decide +kernel, _, _, hrun, by decide +kernel, by decide +kernel⟩

end CodeChange

end ClassText
