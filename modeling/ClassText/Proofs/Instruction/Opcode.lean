import ClassText.Instruction.Opcode

/-!
# Opcodes belong to one family

There are few enough opcodes to try them all, once for everything that is said
of them (`checked`). A reader that asks for one family after the other can ask in
any order, and the opcodes that name a variable themselves are those that a short
load or store is written with.
-/

namespace ClassText.Opcode

/-! ## All opcodes at once -/

/-- What holds of every opcode is found out by trying all of them, once. -/
theorem checked : ∀ n : Fin 256,
    let op : Opcode := ⟨⟨n⟩⟩
    ((op.isSlot = true → op.isSimple = false) ∧
      (op.isShortBranch = true →
        op.isSimple = false ∧ op.isSlot = false ∧ op.isLongBranch = false) ∧
      (op.isLongBranch = true →
        op.isSimple = false ∧ op.isSlot = false ∧ op.isShortBranch = false) ∧
      (op.isConstantRef = true → op.isSimple = false ∧ op.isSlot = false ∧
        op.isShortBranch = false ∧ op.isLongBranch = false)) ∧
    (op.ofShortSlot?.all fun slot =>
      slot.1.isSlot && slot.1 != ret && decide (slot.2.toNat ≤ 3) &&
        slot.1.shortSlot slot.2 == op && !op.isSimple && !op.isSlot && !op.isShortBranch &&
        !op.isLongBranch && !op.isConstantRef) = true ∧
    (op.isSlot = true → op ≠ ret → ∀ i : Fin 4,
      (op.shortSlot (.ofNat i)).ofShortSlot? = some (op, .ofNat i)) := by
  decide +kernel

/-! ## Families of opcodes -/

/-- No opcode belongs to two families. -/
theorem families_disjoint (op : Opcode) :
    (op.isSlot = true → op.isSimple = false) ∧
    (op.isShortBranch = true →
      op.isSimple = false ∧ op.isSlot = false ∧ op.isLongBranch = false) ∧
    (op.isLongBranch = true →
      op.isSimple = false ∧ op.isSlot = false ∧ op.isShortBranch = false) ∧
    (op.isConstantRef = true → op.isSimple = false ∧ op.isSlot = false ∧
      op.isShortBranch = false ∧ op.isLongBranch = false) :=
  (checked op.toBitVec.toFin).1

/-! ## Short forms of loads and stores -/

/-- The opcode of a short form stands for the form. -/
theorem ofShortSlot?_shortSlot {op : Opcode} {index : UInt16} (hop : op.isSlot = true)
    (hret : op ≠ ret) (hindex : index.toNat ≤ 3) :
    (op.shortSlot index).ofShortSlot? = some (op, index) := by
  have hi : UInt16.ofNat index.toNat = index := UInt16.ofNat_toNat
  have hform := (checked op.toBitVec.toFin).2.2 hop hret ⟨index.toNat, Nat.lt_succ_of_le hindex⟩
  rwa [hi] at hform

section

variable {op base : Opcode} {index : UInt16}

/-- All that was tried of an opcode that names its variable. -/
theorem of_ofShortSlot? (h : op.ofShortSlot? = some (base, index)) :
    (base.isSlot = true ∧ base ≠ ret ∧ index.toNat ≤ 3) ∧ base.shortSlot index = op ∧
      op.isSimple = false ∧ op.isSlot = false ∧ op.isShortBranch = false ∧
        op.isLongBranch = false ∧ op.isConstantRef = false := by
  have hop := (checked op.toBitVec.toFin).2.1
  change op.ofShortSlot?.all _ = true at hop
  rw [h] at hop
  simpa [and_assoc] using hop

/-- An opcode that names its variable stands for a load or store of one of the first four. -/
theorem ofShortSlot?_spec (h : op.ofShortSlot? = some (base, index)) :
    base.isSlot = true ∧ base ≠ ret ∧ index.toNat ≤ 3 :=
  (of_ofShortSlot? h).1

theorem shortSlot_ofShortSlot? (h : op.ofShortSlot? = some (base, index)) :
    base.shortSlot index = op :=
  (of_ofShortSlot? h).2.1

/-- An opcode that names its variable is in none of the families. -/
theorem no_family_of_ofShortSlot? {slot : Opcode × UInt16} (h : op.ofShortSlot? = some slot) :
    op.isSimple = false ∧ op.isSlot = false ∧ op.isShortBranch = false ∧
      op.isLongBranch = false ∧ op.isConstantRef = false :=
  (of_ofShortSlot? h).2.2

end

end ClassText.Opcode
