import ClassText.Code.Block
import Mathlib.Data.List.Nodup

/-!
# Blocks

Code is cut where blocks have to begin: at label 0, at targets and behind
instructions that may go elsewhere, and at the bounds of handlers. Between two
such labels there is one block, so every instruction of the code is in one.
-/

namespace ClassText

/-! ## Where blocks begin -/

theorem Block.mem_labels {block : Block} (h : block.start ≤ block.stop) {label : Label} :
    label ∈ block.labels ↔ block.start ≤ label ∧ label < block.stop := by
  rw [labels, List.mem_range'_1, Nat.add_sub_of_le h]

namespace Code

variable {code : Code} {label : Label}

/-- A block has to begin at the label: the code begins there, an instruction jumps to it, it comes
after an instruction that does not just go on to the next one, or a handler refers to it. -/
inductive StartsBlock (code : Code) (label : Label) : Prop
  | first (hzero : label = 0)
  | target {origin : Label} {insn : Instruction} (hinsn : code.instructions[origin]? = some insn)
      (htarget : label ∈ insn.targets)
  | behind {origin : Label} {insn : Instruction} (hinsn : code.instructions[origin]? = some insn)
      (hleaves : insn.targets ≠ [] ∨ insn.fallsThrough = false) (hnext : label = origin + 1)
  | handler {handler : Handler} (hhandler : handler ∈ code.handlers)
      (hlabel : label ∈ [handler.start, handler.stop, handler.target])

theorem mem_boundariesOf {insn : Instruction} {origin : Label} :
    label ∈ boundariesOf insn origin ↔
      label ∈ insn.targets ∨
        (insn.targets ≠ [] ∨ insn.fallsThrough = false) ∧ label = origin + 1 := by
  unfold boundariesOf
  split
  · next hgoes =>
    rw [Bool.and_eq_true, List.isEmpty_iff] at hgoes
    simp [hgoes]
  · next hleaves =>
    rw [Bool.and_eq_true, List.isEmpty_iff, not_and_or, Bool.not_eq_true] at hleaves
    rw [List.mem_cons]
    tauto

theorem mem_zipIdx_instructions {insn : Instruction} :
    (insn, label) ∈ code.instructions.toList.zipIdx ↔ code.instructions[label]? = some insn := by
  rw [List.mem_zipIdx_iff_getElem?, Array.getElem?_toList]

theorem mem_boundaries : label ∈ code.boundaries ↔ code.StartsBlock label := by
  rw [boundaries, List.mem_append, List.mem_cons, List.mem_flatMap, List.mem_flatMap]
  constructor
  · rintro ((hzero | ⟨⟨insn, origin⟩, hmem, hlabel⟩) | ⟨handler, hhandler, hlabel⟩)
    · exact .first hzero
    · rw [mem_zipIdx_instructions] at hmem
      rcases mem_boundariesOf.mp hlabel with htarget | ⟨hleaves, hnext⟩
      · exact .target hmem htarget
      · exact .behind hmem hleaves hnext
    · exact .handler hhandler hlabel
  · rintro (hzero | ⟨hinsn, htarget⟩ | ⟨hinsn, hleaves, hnext⟩ | ⟨hhandler, hlabel⟩)
    · exact .inl (.inl hzero)
    · exact .inl (.inr ⟨_, mem_zipIdx_instructions.mpr hinsn, mem_boundariesOf.mpr (.inl htarget)⟩)
    · exact .inl (.inr ⟨_, mem_zipIdx_instructions.mpr hinsn,
        mem_boundariesOf.mpr (.inr ⟨hleaves, hnext⟩)⟩)
    · exact .inr ⟨_, hhandler, hlabel⟩

/-- The labels that are marked are those given, as far as they are among the first ones. -/
theorem getD_marked {count : Nat} {labels : List Label} {label : Label} :
    (marked count labels).getD label false = true ↔ label ∈ labels ∧ label < count := by
  have hfold : ∀ (labels : List Label) (marks : Array Bool),
      (labels.foldl (fun marks l => marks.setIfInBounds l true) marks).getD label false = true ↔
        label ∈ labels ∧ label < marks.size ∨ marks.getD label false = true := by
    intro labels
    induction labels with
    | nil => simp
    | cons first rest ih =>
      intro marks
      rw [List.foldl_cons, ih, Array.size_setIfInBounds, List.mem_cons]
      by_cases heq : first = label
      · subst heq
        by_cases hlt : first < marks.size <;>
          simp [Array.getD_eq_getD_getElem?, hlt]
      · rw [Array.getD_eq_getD_getElem?, Array.getElem?_setIfInBounds_ne heq,
          ← Array.getD_eq_getD_getElem?]
        simp [Ne.symm heq]
  rw [marked, hfold, Array.size_replicate, Array.getD_eq_getD_getElem?, Array.getElem?_replicate]
  split <;> simp

theorem map_start_zipWith :
    ∀ {starts stops : List Label}, starts.length ≤ stops.length →
      (List.zipWith Block.mk starts stops).map (·.start) = starts
  | [], _, _ => by rw [List.zipWith_nil_left, List.map_nil]
  | start :: starts, stop :: stops, hle => by
    rw [List.zipWith_cons_cons, List.map_cons, map_start_zipWith (Nat.le_of_succ_le_succ hle)]

theorem map_start_blocks (code : Code) : code.blocks.map (·.start) = code.blockStarts := by
  refine map_start_zipWith ?_
  rw [List.length_append, List.length_drop, List.length_singleton]
  omega

theorem start_lt_of_mem_blocks {block : Block} (h : block ∈ code.blocks) :
    block.start < code.instructions.size := by
  have hstart : block.start ∈ code.blockStarts := map_start_blocks code ▸ List.mem_map_of_mem h
  exact List.mem_range.mp (List.mem_filter.mp hstart).1

theorem nodup_start_blocks (code : Code) : (code.blocks.map (·.start)).Nodup := by
  rw [map_start_blocks]
  exact List.nodup_range.filter _

theorem mem_blockStarts : label ∈ code.blockStarts ↔
    code.StartsBlock label ∧ label < code.instructions.size := by
  rw [blockStarts, List.mem_filter, getD_marked, List.mem_range, mem_boundaries]
  tauto

/-- A block begins at a label of the code if and only if one has to. -/
theorem exists_start_iff :
    (∃ block ∈ code.blocks, block.start = label) ↔
      code.StartsBlock label ∧ label < code.instructions.size := by
  rw [← List.mem_map, map_start_blocks, mem_blockStarts]

theorem pairwise_blockStarts (code : Code) : code.blockStarts.Pairwise (· < ·) :=
  List.pairwise_lt_range.filter _

/-- Code that is not empty begins with a block. -/
theorem exists_blockStarts_eq_cons (hpos : 0 < code.instructions.size) :
    ∃ starts, code.blockStarts = 0 :: starts := by
  have hzero : 0 ∈ code.blockStarts := mem_blockStarts.mpr ⟨.first rfl, hpos⟩
  have hsorted := pairwise_blockStarts code
  cases hstarts : code.blockStarts with
  | nil =>
    rw [hstarts] at hzero
    cases hzero
  | cons start starts =>
    rw [hstarts] at hzero hsorted
    rcases List.mem_cons.mp hzero with rfl | hmem
    · exact ⟨starts, rfl⟩
    · exact absurd (List.rel_of_pairwise_cons hsorted hmem) (Nat.not_lt_zero start)

theorem start_of_blocks_eq_cons {block : Block} {rest : List Block}
    (h : code.blocks = block :: rest) : block.start = 0 := by
  have hlt := start_lt_of_mem_blocks (h ▸ List.mem_cons_self : block ∈ code.blocks)
  obtain ⟨starts, hstarts⟩ := exists_blockStarts_eq_cons (Nat.zero_lt_of_lt hlt)
  have hmap := map_start_blocks code
  rw [h, hstarts] at hmap
  exact (List.cons.inj hmap).1

/-! ## Where blocks end -/

theorem blocksFrom_cons_cons (start next : Label) (starts : List Label) (count : Nat) :
    blocksFrom (start :: next :: starts) count =
      ⟨start, next⟩ :: blocksFrom (next :: starts) count := rfl

theorem bounds_of_mem_blocksFrom {count : Nat} {block : Block} :
    ∀ {starts : List Label}, starts.Pairwise (· < ·) → (∀ start ∈ starts, start < count) →
      block ∈ blocksFrom starts count → block.start < block.stop ∧ block.stop ≤ count
  | [], _, _, h => nomatch h
  | [start], _, hlt, h => by
    obtain rfl := List.mem_singleton.mp h
    exact ⟨hlt start List.mem_cons_self, Nat.le_refl count⟩
  | start :: next :: starts, hsorted, hlt, h => by
    obtain ⟨hstart, hsorted⟩ := List.pairwise_cons.mp hsorted
    obtain ⟨-, hlt⟩ := List.forall_mem_cons.mp hlt
    rw [blocksFrom_cons_cons] at h
    rcases List.mem_cons.mp h with rfl | h
    · exact ⟨hstart next List.mem_cons_self, Nat.le_of_lt (hlt next List.mem_cons_self)⟩
    · exact bounds_of_mem_blocksFrom hsorted hlt h

theorem flatMap_labels_blocksFrom {count : Nat} :
    ∀ {start : Nat} {starts : List Nat}, (start :: starts).Pairwise (· < ·) →
      (∀ label ∈ start :: starts, label < count) →
        (blocksFrom (start :: starts) count).flatMap Block.labels =
          List.range' start (count - start)
  | start, [], _, _ => List.append_nil _
  | start, next :: starts, hsorted, hlt => by
    obtain ⟨hstart, hsorted⟩ := List.pairwise_cons.mp hsorted
    obtain ⟨-, hlt⟩ := List.forall_mem_cons.mp hlt
    have hnext : start < next := hstart next List.mem_cons_self
    have hcount : next < count := hlt next List.mem_cons_self
    rw [blocksFrom_cons_cons, List.flatMap_cons, flatMap_labels_blocksFrom hsorted hlt,
      Block.labels, show count - start = (next - start) + (count - next) by omega,
      ← List.range'_append_1, Nat.add_sub_of_le (Nat.le_of_lt hnext)]

/-- A block has instructions, all of them in the code. -/
theorem bounds_of_mem_blocks {block : Block} (h : block ∈ code.blocks) :
    block.start < block.stop ∧ block.stop ≤ code.instructions.size :=
  bounds_of_mem_blocksFrom (pairwise_blockStarts code)
    (fun _ hstart => (mem_blockStarts.mp hstart).2) h

theorem last_lt_of_mem_blocks {block : Block} (h : block ∈ code.blocks) :
    block.last < code.instructions.size := by
  obtain ⟨hlt, hle⟩ := bounds_of_mem_blocks h
  exact Nat.lt_of_lt_of_le (Nat.sub_lt (Nat.zero_lt_of_lt hlt) Nat.one_pos) hle

theorem lt_of_mem_labels {block : Block} (h : block ∈ code.blocks) {label : Label}
    (hlabel : label ∈ block.labels) : label < code.instructions.size := by
  obtain ⟨hlt, hle⟩ := bounds_of_mem_blocks h
  exact Nat.lt_of_lt_of_le ((Block.mem_labels (Nat.le_of_lt hlt)).mp hlabel).2 hle

/-- Every instruction is in one block, and all of them are in order. -/
theorem flatMap_labels_blocks (code : Code) :
    code.blocks.flatMap Block.labels = List.range code.instructions.size := by
  rcases Nat.eq_zero_or_pos code.instructions.size with hzero | hpos
  · rw [blocks, blockStarts, hzero]
    rfl
  · obtain ⟨starts, hstarts⟩ := exists_blockStarts_eq_cons hpos
    have hsorted := pairwise_blockStarts code
    have hlt : ∀ start ∈ code.blockStarts, start < code.instructions.size := fun _ hstart =>
      (mem_blockStarts.mp hstart).2
    rw [hstarts] at hsorted hlt
    rw [blocks, hstarts, flatMap_labels_blocksFrom hsorted hlt, Nat.sub_zero, List.range_eq_range']

theorem exists_block_of_lt (hlt : label < code.instructions.size) :
    ∃ block ∈ code.blocks, label ∈ block.labels := by
  rwa [← List.mem_range, ← flatMap_labels_blocks, List.mem_flatMap] at hlt

end Code

/-- What has a label of its own is found by it. -/
theorem find?_label_of_mem {α : Type} (label : α → Label) {items : List α}
    (hnodup : (items.map label).Nodup) {item : α} (h : item ∈ items) :
    items.find? (label · == label item) = some item := by
  induction items with
  | nil => cases h
  | cons first rest ih =>
    rw [List.map_cons, List.nodup_cons] at hnodup
    rcases List.mem_cons.mp h with rfl | h
    · rw [List.find?_cons_of_pos (by simp)]
    · have hne : label first ≠ label item := fun heq =>
        hnodup.1 (heq ▸ List.mem_map_of_mem h)
      rw [List.find?_cons_of_neg (by simpa using hne)]
      exact ih hnodup.2 h

end ClassText
