import ClassText.Instruction.Assembly
import ClassText.Proofs.Instruction.Opcode
import ClassText.Proofs.Success
import Mathlib.Algebra.Group.Int.Defs
import Mathlib.Algebra.Group.Nat.Defs

/-!
# Forms of instructions

Not every instruction that can be written down is one that is read: its opcode
has to belong to the family of its operands, its form has to be the one in
which it is written, and a switch needs bounds. An instruction with all this is
well formed. None of it depends on where the instruction jumps to, so labels
can be put in the place of offsets and the other way round.
-/

namespace ClassText

namespace Instruction

/-! ## Well-formed instructions -/

/-- Is the instruction one that is read, in the form in which it is written? -/
def IsWellFormed : Instruction → Prop
  | simple opcode => opcode.isSimple = true
  | loadConstant index wide => isWideLoad index wide = wide
  | slot opcode index form => opcode.isSlot = true ∧ writtenForm opcode index form = form
  | increment index step wide => isWideIncrement index step wide = wide
  | branch opcode _ => opcode.isShortBranch = true ∨ opcode.isLongBranch = true
  | tableSwitch _ low targets => targets ≠ [] ∧ low.toInt + targets.length ≤ 2 ^ 31
  | lookupSwitch _ pairs => pairs.length < 2 ^ 31
  | constantRef opcode _ => opcode.isConstantRef = true
  | _ => True

/-- Put other labels in the place of the targets. -/
def mapLabels (f : Label → Label) : Instruction → Instruction
  | branch opcode target => branch opcode (f target)
  | tableSwitch default low targets => tableSwitch (f default) low (targets.map f)
  | lookupSwitch default pairs =>
    lookupSwitch (f default) (pairs.map fun pair => (pair.1, f pair.2))
  | other => other

/-- A jump whose target is an offset, from the instruction at an offset: does its distance fit
its form? -/
def JumpFits (offset : Nat) : Instruction → Prop
  | branch opcode target => opcode.isLongBranch = true ∨
      (-32768 ≤ (target : Int) - offset ∧ (target : Int) - offset ≤ 32767)
  | _ => True

attribute [local simp] IsWellFormed mapLabels size targets mapTargets

section Forms

variable {opcode : Opcode} {index : UInt16}

theorem writtenForm_short :
    writtenForm opcode index .short = .short ↔ index.toNat ≤ 3 ∧ opcode ≠ .ret := by
  simp only [writtenForm, reduceCtorEq, false_or, true_and]
  by_cases hwide : 255 < index.toNat
  · rw [if_pos hwide]
    exact ⟨fun h => (nomatch h), fun h => by omega⟩
  · rw [if_neg hwide, ite_eq_left_iff]
    exact ⟨fun h => Decidable.byContradiction fun hne => (nomatch h hne), fun h hne => (hne h).elim⟩

theorem writtenForm_normal :
    writtenForm opcode index .normal = .normal ↔ index.toNat ≤ 255 := by
  simp only [writtenForm, reduceCtorEq, false_or, false_and, if_false]
  by_cases hwide : 255 < index.toNat
  · rw [if_pos hwide]
    exact ⟨fun h => (nomatch h), fun h => by omega⟩
  · rw [if_neg hwide]
    exact ⟨fun _ => Nat.le_of_not_lt hwide, fun _ => rfl⟩

theorem writtenForm_wide : writtenForm opcode index .wide = .wide :=
  if_pos (.inl rfl)

end Forms

variable {f : Label → Label} {insn : Instruction} {offset : Nat}

@[simp] theorem isWellFormed_mapLabels : (insn.mapLabels f).IsWellFormed ↔ insn.IsWellFormed := by
  cases insn <;> simp

@[simp] theorem size_mapLabels : (insn.mapLabels f).size offset = insn.size offset := by
  cases insn <;> simp

/-! ## Replacing targets -/

section Targets

variable {ε : Type} {f : Label → Except ε Label} {g : Label → Label} {insn after : Instruction}

/-- Targets that were replaced and can be found again are the same targets. -/
theorem eq_mapLabels_of_mapTargets (hg : ∀ {t l}, f t = .ok l → g l = t)
    (h : insn.mapTargets f = .ok after) :
    insn = after.mapLabels g ∧ ∀ l ∈ after.targets, ∃ t, f t = .ok l := by
  cases insn with
  | branch opcode target =>
    obtain ⟨l, hl, heq⟩ := Success.bind_eq_ok.mp h
    cases heq
    exact ⟨by rw [mapLabels, hg hl], List.forall_mem_singleton.mpr ⟨target, hl⟩⟩
  | tableSwitch default low targets =>
    obtain ⟨l, hl, h⟩ := Success.bind_eq_ok.mp h
    obtain ⟨ls, hls, heq⟩ := Success.bind_eq_ok.mp h
    cases heq
    obtain ⟨hmap, hall⟩ := Success.map_eq_of_forall₂ g (fun l => ∃ t, f t = .ok l)
      (fun t l hl => ⟨hg hl, t, hl⟩) (Success.mapM_eq_ok.mp hls)
    exact ⟨by rw [mapLabels, hg hl, hmap], List.forall_mem_cons.mpr ⟨⟨default, hl⟩, hall⟩⟩
  | lookupSwitch default pairs =>
    obtain ⟨l, hl, h⟩ := Success.bind_eq_ok.mp h
    obtain ⟨ls, hls, heq⟩ := Success.bind_eq_ok.mp h
    cases heq
    obtain ⟨hmap, hall⟩ := Success.map_eq_of_forall₂
      (fun pair : Int32 × Label => (pair.1, g pair.2)) (fun pair => ∃ t, f t = .ok pair.2)
      (fun pair after hpair => by
        obtain ⟨l, hl, heq⟩ := Success.bind_eq_ok.mp hpair
        cases heq
        exact ⟨by rw [hg hl], pair.2, hl⟩)
      (Success.mapM_eq_ok.mp hls)
    exact ⟨by rw [mapLabels, hg hl, hmap],
      List.forall_mem_cons.mpr ⟨⟨default, hl⟩, List.forall_mem_map.mpr hall⟩⟩
  | _ =>
    cases h
    exact ⟨rfl, fun l hl => (nomatch hl)⟩

theorem mapTargets_mapLabels (h : ∀ l ∈ insn.targets, f (g l) = .ok l) :
    (insn.mapLabels g).mapTargets f = .ok insn := by
  cases insn with
  | branch opcode target =>
    rw [mapLabels, mapTargets, h target List.mem_cons_self]
    rfl
  | tableSwitch default low targets =>
    obtain ⟨hdefault, hrest⟩ := List.forall_mem_cons.mp h
    have htargets : (targets.map g).mapM f = .ok targets := by
      rw [Success.mapM_eq_ok, List.forall₂_map_left_iff, List.forall₂_same]
      exact hrest
    rw [mapLabels, mapTargets, hdefault, htargets]
    rfl
  | lookupSwitch default pairs =>
    obtain ⟨hdefault, hrest⟩ := List.forall_mem_cons.mp h
    have hpairs : (pairs.map fun pair => (pair.1, g pair.2)).mapM
        (fun pair => (do return (pair.1, ← f pair.2) : Except ε (Int32 × Label))) =
          .ok pairs := by
      rw [Success.mapM_eq_ok, List.forall₂_map_left_iff, List.forall₂_same]
      intro pair hpair
      rw [hrest pair.2 (List.mem_map_of_mem hpair)]
      rfl
    rw [mapLabels, mapTargets, hdefault, hpairs]
    rfl
  | _ => rfl

end Targets

end Instruction

end ClassText
