import ClassText.Proofs.Code.Block
import Mathlib.Data.List.Sort

/-!
# Blocks partition the code

The blocks of code follow one another without gaps and hold every instruction
once. Control enters a block at its first instruction only, for a block begins
wherever control can be sent; it leaves a block behind its last instruction
only; and the range of a handler holds a block as a whole or not at all.

Together with the rule that a block begins only where one has to
(`Code.StartsBlock`), this says all there is to say: `Code.blocks` is the only
list of blocks for which it holds (`Code.isPartition_iff`).
-/

namespace ClassText

/-! ## Blocks that follow one another -/

namespace Block

variable {blocks : List Block} {block other : Block}

/-- Each block ends where the next one begins. -/
abbrev Consecutive (blocks : List Block) : Prop :=
  blocks.IsChain fun block next => block.stop = next.start

theorem pairwise_of_consecutive :
    ∀ {blocks : List Block}, (∀ block ∈ blocks, block.start < block.stop) →
      Consecutive blocks → blocks.Pairwise fun block later => block.stop ≤ later.start
  | [], _, _ => .nil
  | [_], _, _ => List.pairwise_singleton _ _
  | block :: next :: rest, hnonempty, hchain => by
    obtain ⟨-, hnonempty⟩ := List.forall_mem_cons.mp hnonempty
    obtain ⟨hnext, hchain⟩ := List.isChain_cons_cons.mp hchain
    have hrest := pairwise_of_consecutive hnonempty hchain
    refine List.pairwise_cons.mpr ⟨List.forall_mem_cons.mpr ⟨Nat.le_of_eq hnext, ?_⟩, hrest⟩
    intro later hlater
    calc
      block.stop = next.start := hnext
      _ ≤ next.stop := Nat.le_of_lt (hnonempty next List.mem_cons_self)
      _ ≤ later.start := (List.pairwise_cons.mp hrest).1 later hlater

/-- Two blocks are the same, or one of them is before the other. -/
theorem eq_or_before (hnonempty : ∀ block ∈ blocks, block.start < block.stop)
    (hchain : Consecutive blocks) (hblock : block ∈ blocks) (hother : other ∈ blocks) :
    block = other ∨ block.stop ≤ other.start ∨ other.stop ≤ block.start := by
  have hpairwise := pairwise_of_consecutive hnonempty hchain
  refine List.Pairwise.forall_of_forall_of_flip
    (R := fun block other => block = other ∨ block.stop ≤ other.start ∨ other.stop ≤ block.start)
    (fun _ _ => .inl rfl) ?_ ?_ hblock hother
  · exact hpairwise.imp fun h => .inr (.inl h)
  · exact hpairwise.imp fun h => .inr (.inr h)

/-- No block begins within a block. -/
theorem start_le_or_stop_le (hnonempty : ∀ block ∈ blocks, block.start < block.stop)
    (hchain : Consecutive blocks) (hblock : block ∈ blocks) (hother : other ∈ blocks) :
    other.start ≤ block.start ∨ block.stop ≤ other.start := by
  rcases eq_or_before hnonempty hchain hblock hother with rfl | hbefore | hbehind
  · exact .inl (Nat.le_refl _)
  · exact .inr hbefore
  · exact .inl (Nat.le_trans (Nat.le_of_lt (hnonempty other hother)) hbehind)

end Block

namespace Code

theorem consecutive_blocksFrom (count : Nat) :
    ∀ starts : List Label, Block.Consecutive (blocksFrom starts count)
  | [] => .nil
  | [_] => .singleton _
  | [_, _] => List.isChain_cons_cons.mpr ⟨rfl, .singleton _⟩
  | start :: next :: later :: starts => by
    have hrest := consecutive_blocksFrom count (next :: later :: starts)
    rw [blocksFrom_cons_cons] at hrest ⊢
    rw [blocksFrom_cons_cons]
    exact List.isChain_cons_cons.mpr ⟨rfl, hrest⟩

/-! ## The partition -/

/-- The blocks divide the code as control flow and handlers ask for it, and no further. -/
structure IsPartition (code : Code) (blocks : List Block) : Prop where
  nonempty : ∀ block ∈ blocks, block.start < block.stop
  consecutive : Block.Consecutive blocks
  /-- Every instruction is in one block, and all of them are in order. -/
  covering : blocks.flatMap Block.labels = List.range code.instructions.size
  targets : ∀ {origin : Label} {insn : Instruction}, code.instructions[origin]? = some insn →
    ∀ target ∈ insn.targets, target < code.instructions.size →
      ∃ block ∈ blocks, block.start = target
  handlers : ∀ handler ∈ code.handlers,
    ∀ label ∈ [handler.start, handler.stop, handler.target], label < code.instructions.size →
      ∃ block ∈ blocks, block.start = label
  /-- Only the last instruction of a block jumps, or does not go on to the next one. -/
  inner : ∀ block ∈ blocks, ∀ label ∈ block.labels, label ≠ block.last →
    ∀ insn, code.instructions[label]? = some insn →
      insn.targets = [] ∧ insn.fallsThrough = true
  /-- A block is in the range of a handler, or before it, or behind it. -/
  ranges : ∀ handler ∈ code.handlers, ∀ block ∈ blocks,
    handler.start ≤ block.start ∧ block.stop ≤ handler.stop ∨
      block.stop ≤ handler.start ∨ handler.stop ≤ block.start
  needed : ∀ block ∈ blocks, code.StartsBlock block.start

variable {code : Code} {blocks others : List Block} {block other : Block} {label : Label}

/-- No block has to begin within a block. -/
theorem le_start_or_stop_le (hblock : block ∈ code.blocks) (hstarts : code.StartsBlock label) :
    label ≤ block.start ∨ block.stop ≤ label := by
  by_cases hlt : label < code.instructions.size
  · obtain ⟨other, hother, rfl⟩ := exists_start_iff.mpr ⟨hstarts, hlt⟩
    exact Block.start_le_or_stop_le (fun _ h => (bounds_of_mem_blocks h).1)
      (consecutive_blocksFrom _ _) hblock hother
  · exact .inr (Nat.le_trans (bounds_of_mem_blocks hblock).2 (Nat.le_of_not_lt hlt))

theorem isPartition_blocks (code : Code) : code.IsPartition code.blocks where
  nonempty _ hblock := (bounds_of_mem_blocks hblock).1
  consecutive := consecutive_blocksFrom _ _
  covering := flatMap_labels_blocks code
  targets hinsn _ htarget hlt := exists_start_iff.mpr ⟨.target hinsn htarget, hlt⟩
  handlers _ hhandler _ hlabel hlt := exists_start_iff.mpr ⟨.handler hhandler hlabel, hlt⟩
  inner block hblock label hlabel hlast insn hinsn := by
    have hbounds := (bounds_of_mem_blocks hblock).1
    obtain ⟨hle, hlt⟩ := (Block.mem_labels (Nat.le_of_lt hbounds)).mp hlabel
    have hwithin : label + 1 < block.stop :=
      Nat.lt_of_le_of_ne hlt fun heq => hlast (Nat.eq_sub_of_add_eq heq)
    by_contra hleaves
    rw [not_and_or, Bool.not_eq_true] at hleaves
    rcases le_start_or_stop_le hblock (.behind hinsn hleaves rfl) with hbefore | hbehind
    · exact Nat.not_le_of_lt hbefore hle
    · exact Nat.not_le_of_lt hwithin hbehind
  ranges handler hhandler block hblock := by
    have hstart : code.StartsBlock handler.start := .handler hhandler (by simp)
    have hstop : code.StartsBlock handler.stop := .handler hhandler (by simp)
    rcases le_start_or_stop_le hblock hstart with hbegun | hbefore
    · rcases le_start_or_stop_le hblock hstop with hbehind | hguarded
      · exact .inr (.inr hbehind)
      · exact .inl ⟨hbegun, hguarded⟩
    · exact .inr (.inl hbefore)
  needed _ hblock := (exists_start_iff.mp ⟨_, hblock, rfl⟩).1

/-! ## There is no other one -/

namespace IsPartition

theorem lt_size_iff (h : code.IsPartition blocks) :
    label < code.instructions.size ↔
      ∃ block ∈ blocks, block.start ≤ label ∧ label < block.stop := by
  rw [← List.mem_range, ← h.covering, List.mem_flatMap]
  refine exists_congr fun block => and_congr_right fun hblock => ?_
  exact Block.mem_labels (Nat.le_of_lt (h.nonempty block hblock))

theorem exists_next (h : code.IsPartition blocks) (hblock : block ∈ blocks)
    (hlt : block.stop < code.instructions.size) : ∃ next ∈ blocks, next.start = block.stop := by
  obtain ⟨next, hnext, hle, hstop⟩ := h.lt_size_iff.mp hlt
  refine ⟨next, hnext, Nat.le_antisymm hle ?_⟩
  rcases Block.eq_or_before h.nonempty h.consecutive hblock hnext with rfl | hbefore | hbehind
  · exact absurd hstop (Nat.lt_irrefl _)
  · exact hbefore
  · have hbounds := h.nonempty block hblock
    exact absurd (Nat.lt_trans hbounds hstop) (Nat.not_lt_of_le hbehind)

/-- Blocks begin at the same labels in every partition. -/
theorem exists_start_iff (h : code.IsPartition blocks) :
    (∃ block ∈ blocks, block.start = label) ↔
      code.StartsBlock label ∧ label < code.instructions.size := by
  constructor
  · rintro ⟨block, hblock, rfl⟩
    exact ⟨h.needed block hblock,
      h.lt_size_iff.mpr ⟨block, hblock, Nat.le_refl _, h.nonempty block hblock⟩⟩
  · rintro ⟨hstarts, hlt⟩
    cases hstarts with
    | first hzero =>
      obtain ⟨block, hblock, hle, -⟩ := h.lt_size_iff.mp hlt
      rw [hzero] at hle ⊢
      exact ⟨block, hblock, Nat.eq_zero_of_le_zero hle⟩
    | target hinsn htarget => exact h.targets hinsn label htarget hlt
    | handler hhandler hlabel => exact h.handlers _ hhandler label hlabel hlt
    | @behind origin insn hinsn hleaves hnext =>
      subst hnext
      obtain ⟨block, hblock, hbounds⟩ := h.lt_size_iff.mp (Nat.lt_of_succ_lt hlt)
      have hnonempty := h.nonempty block hblock
      -- An instruction that leaves its block is the last one of it.
      have hlast : origin = block.last := by
        by_contra hne
        have hlabel := (Block.mem_labels (Nat.le_of_lt hnonempty)).mpr hbounds
        obtain ⟨htargets, hfalls⟩ := h.inner block hblock origin hlabel hne insn hinsn
        simp [htargets, hfalls] at hleaves
      have hstop : block.stop = origin + 1 := by
        rw [hlast, Block.last, Nat.sub_add_cancel (Nat.zero_lt_of_lt hnonempty)]
      exact hstop ▸ h.exists_next hblock (hstop ▸ hlt)

/-- Of two partitions, one has no block that goes on where a block of the other ends. -/
theorem stop_le_stop (h : code.IsPartition blocks) (h' : code.IsPartition others)
    (hblock : block ∈ blocks) (hother : other ∈ others) (hstart : other.start = block.start) :
    other.stop ≤ block.stop := by
  by_contra hnot
  have hnonempty := h.nonempty block hblock
  have hlt : block.stop < code.instructions.size :=
    h'.lt_size_iff.mpr ⟨other, hother, hstart ▸ Nat.le_of_lt hnonempty, Nat.lt_of_not_le hnot⟩
  obtain ⟨next, hnext, hnextStart⟩ :=
    h'.exists_start_iff.mpr (h.exists_start_iff.mp (h.exists_next hblock hlt))
  rcases Block.start_le_or_stop_le h'.nonempty h'.consecutive hother hnext with hle | hle
  · rw [hnextStart, hstart] at hle
    exact Nat.not_le_of_lt hnonempty hle
  · exact hnot (hnextStart ▸ hle)

theorem mem_of_mem (h : code.IsPartition blocks) (h' : code.IsPartition others)
    (hblock : block ∈ blocks) : block ∈ others := by
  obtain ⟨other, hother, hstart⟩ :=
    h'.exists_start_iff.mpr (h.exists_start_iff.mp ⟨block, hblock, rfl⟩)
  have hstop := Nat.le_antisymm (h.stop_le_stop h' hblock hother hstart)
    (h'.stop_le_stop h hother hblock hstart.symm)
  obtain ⟨start, stop⟩ := block
  obtain ⟨start', stop'⟩ := other
  obtain rfl : start' = start := hstart
  obtain rfl : stop' = stop := hstop
  exact hother

theorem pairwise_start_lt (h : code.IsPartition blocks) :
    blocks.Pairwise fun block later => block.start < later.start := by
  refine (Block.pairwise_of_consecutive h.nonempty h.consecutive).imp_of_mem ?_
  exact fun hblock _ hle => Nat.lt_of_lt_of_le (h.nonempty _ hblock) hle

theorem unique (h : code.IsPartition blocks) (h' : code.IsPartition others) : blocks = others := by
  have : Std.Irrefl fun block later : Block => block.start < later.start :=
    ⟨fun block => Nat.lt_irrefl block.start⟩
  exact List.Pairwise.eq_of_mem_iff h.pairwise_start_lt h'.pairwise_start_lt fun _ =>
    ⟨h.mem_of_mem h', h'.mem_of_mem h⟩

end IsPartition

/-- The blocks of code are a partition of it, and there is no other one. -/
theorem isPartition_iff (code : Code) (blocks : List Block) :
    code.IsPartition blocks ↔ blocks = code.blocks := by
  constructor
  · exact fun h => h.unique code.isPartition_blocks
  · rintro rfl
    exact code.isPartition_blocks

end Code

end ClassText
