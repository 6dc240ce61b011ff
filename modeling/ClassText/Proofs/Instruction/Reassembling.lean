import ClassText.Proofs.Instruction.Assembling

/-!
# Assembling code that was read

Code that was read is laid out at the offsets it had. Written down, it has the
bytes it was read from, except for those that reading skips: they are zeros now
(`Assembled.ofCode_restores`). An instruction begins before the bytes it skips
and ends after them, so every byte of the code can be looked up in the one
instruction it belongs to.
-/

namespace ClassText

namespace Instruction

variable {insn : Instruction} {offset o : Nat}

theorem lt_of_skips (h : insn.Skips offset o) : offset < o ∧ o < offset + insn.size offset := by
  cases insn with
  | tableSwitch default low targets =>
    obtain ⟨hlt, hle⟩ := h
    exact ⟨hlt, by rw [size]; omega⟩
  | lookupSwitch default pairs =>
    obtain ⟨hlt, hle⟩ := h
    exact ⟨hlt, by rw [size]; omega⟩
  | invokeInterface index count =>
    have heq : o = offset + 4 := h
    exact ⟨by omega, by rw [size]; omega⟩
  | invokeDynamic index =>
    have heq : o = offset + 3 ∨ o = offset + 4 := h
    exact ⟨by omega, by rw [size]; omega⟩
  | _ => exact h.elim

@[simp] theorem skips_mapLabels {f : Label → Label} :
    (insn.mapLabels f).Skips offset o ↔ insn.Skips offset o := by
  cases insn <;> exact Iff.rfl

end Instruction

namespace Assembled

open Instruction

variable {code : Array Instruction} {offsets : Array Nat} {bytes : Bytes}

/-- Some instruction of the code skips the byte at this offset. -/
def Skips (code : Array Instruction) (offsets : Array Nat) (o : Nat) : Prop :=
  ∃ (l : Label) (insn : Instruction), code[l]? = some insn ∧ insn.Skips (offsets.getD l 0) o

theorem skips_iff_placed {o : Nat} :
    Skips code (offsetsOf code) o ↔ ∃ p ∈ placed 0 code.toList, p.1.Skips p.2 o := by
  constructor
  · rintro ⟨l, insn, hinsn, hskips⟩
    exact ⟨(insn, _), List.mem_of_getElem? (getElem?_placed.mpr ⟨hinsn, rfl⟩), hskips⟩
  · rintro ⟨p, hp, hskips⟩
    obtain ⟨l, hl⟩ := List.getElem?_of_mem hp
    obtain ⟨hinsn, hoffset⟩ := getElem?_placed.mp hl
    exact ⟨l, p.1, hinsn, hoffset ▸ hskips⟩

/-- The bytes of instructions that were read, and those that are written for them. -/
theorem flatten_blanks (offsets : Array Nat) : ∀ {offset : Nat} {insns : List Instruction}
    {parts parts' : List Bytes},
    AreRead offset parts (insns.map (unresolved offsets)) →
    List.Forall₂ (fun p part => p.1.encode offsets p.2 = .ok part) (placed offset insns) parts' →
    ∀ i, ((∃ p ∈ placed offset insns, p.1.Skips p.2 (offset + i)) →
        parts'.flatten[i]? = some 0) ∧
      ((¬∃ p ∈ placed offset insns, p.1.Skips p.2 (offset + i)) →
        parts'.flatten[i]? = parts.flatten[i]?)
  | _, [], _, _, .nil, .nil, _ => by
    constructor
    · rintro ⟨p, hp, -⟩
      cases hp
    · exact fun _ => rfl
  | offset, insn :: rest, part :: parts, part' :: parts', hread, .cons hpart' hparts', i => by
    obtain ⟨hpart, hparts⟩ := List.forall₂_cons.mp hread
    have hspec := read_spec hpart
    obtain ⟨hlen', hblanks⟩ := hspec.blanks rfl hpart'
    have hlen : insn.size offset = part.length := by
      rw [← hspec.size_eq]
      exact size_mapLabels.symm
    rw [size_mapLabels] at hparts
    simp only [skips_mapLabels] at hblanks
    have hrest := flatten_blanks offsets hparts hparts'
    simp only [placed, List.exists_mem_cons_iff, List.flatten_cons]
    by_cases hi : i < part.length
    · -- later instructions begin behind this byte
      have hlater : ¬∃ p ∈ placed (offset + insn.size offset) rest, p.1.Skips p.2 (offset + i) := by
        rintro ⟨p, hp, hskips⟩
        obtain ⟨-, hle, -⟩ := mem_placed hp
        have hlt := (lt_of_skips hskips).1
        omega
      rw [or_iff_left hlater, List.getElem?_append_left hi,
        List.getElem?_append_left (hlen' ▸ hi)]
      exact hblanks i
    · -- this instruction ends before the byte
      have hbefore : ¬insn.Skips offset (offset + i) := by
        intro hskips
        have hlt := (lt_of_skips hskips).2
        omega
      have hi' : offset + i = offset + insn.size offset + (i - part.length) := by omega
      rw [or_iff_right hbefore, List.getElem?_append_right (Nat.le_of_not_lt hi),
        List.getElem?_append_right (by omega), hlen', hi']
      exact hrest (i - part.length)

/-- The bytes that are written for code that was read: zeros where reading skips bytes, and the same
bytes as before everywhere else. -/
theorem ofCode_blanks {bytes' : Bytes} (hlen : bytes.length ≤ 65535)
    (h : Decoded.ofBytes bytes = .ok ⟨code, offsets⟩) (hcode : ofCode code = .ok ⟨offsets, bytes'⟩)
    (o : Nat) :
    (Skips code offsets o → bytes'[o]? = some 0) ∧
      (¬Skips code offsets o → bytes'[o]? = bytes[o]?) := by
  obtain ⟨-, rfl, -⟩ := ofCode_of_ofBytes h hlen
  obtain ⟨-, -, parts', hparts', rfl⟩ := ofCode_eq_ok_iff.mp hcode
  obtain ⟨parts, insns, hparts, rfl, after, hafter, heq⟩ := Decoded.ofBytes_eq_ok_iff.mp h
  obtain ⟨rfl, hoffsets⟩ := Decoded.mk.inj heq
  obtain ⟨hmap, -⟩ := resolved_spec hparts hafter
  rw [← hmap, ← hoffsets] at hparts
  have hbytes := flatten_blanks (offsetsOf after.toArray) hparts hparts' o
  simp only [Nat.zero_add] at hbytes
  rwa [skips_iff_placed]

/-- Code that was read keeps its offsets and its bytes, except for zeros in the place of the bytes
that reading skips, and is read again. -/
theorem ofCode_restores (hlen : bytes.length ≤ 65535)
    (h : Decoded.ofBytes bytes = .ok ⟨code, offsets⟩) :
    layout code = .ok offsets ∧
      ∃ bytes', ofCode code = .ok ⟨offsets, bytes'⟩ ∧ bytes'.length = bytes.length ∧
        (∀ o, Skips code offsets o → bytes'[o]? = some 0) ∧
        (∀ o, ¬Skips code offsets o → bytes'[o]? = bytes[o]?) ∧
        Decoded.ofBytes bytes' = .ok ⟨code, offsets⟩ := by
  obtain ⟨hreadable, rfl, bytes', hcode, hlen'⟩ := ofCode_of_ofBytes h hlen
  exact ⟨layout_of_ofCode hcode, bytes', hcode, hlen',
    fun o => (ofCode_blanks hlen h hcode o).1, fun o => (ofCode_blanks hlen h hcode o).2,
    ofBytes_of_ofCode hreadable hcode⟩

/-- Code that was read is written to the same bytes, if those that reading skips are zeros. -/
theorem eq_of_skips_zeros {bytes' : Bytes} (hlen : bytes.length ≤ 65535)
    (h : Decoded.ofBytes bytes = .ok ⟨code, offsets⟩) (hcode : ofCode code = .ok ⟨offsets, bytes'⟩)
    (hzeros : ∀ o, Skips code offsets o → bytes[o]? = some 0) : bytes' = bytes := by
  refine List.ext_getElem? fun o => ?_
  obtain ⟨hskipped, hkept⟩ := ofCode_blanks hlen h hcode o
  by_cases hskips : Skips code offsets o
  · rw [hskipped hskips, hzeros o hskips]
  · exact hkept hskips

/-- A wide load of the first variable, a switch and a call, with bytes that nothing reads. -/
def padded : Bytes :=
  [0xc4, 0x19, 0, 0, 0xaa, 1, 2, 3, 0, 0, 0, 25, 0, 0, 0, 4, 0, 0, 0, 4, 0, 0, 0, 20,
    0xb9, 0, 9, 1, 7, 0xb1]

theorem ofCode_restores_padded :
    padded.length ≤ 65535 ∧ ∃ code bytes,
      Decoded.ofBytes padded = .ok ⟨code, #[0, 4, 24, 29, 30]⟩ ∧
        ofCode code = .ok ⟨#[0, 4, 24, 29, 30], bytes⟩ ∧
        bytes[5]? = some 0 ∧ bytes[28]? = some 0 ∧ bytes[27]? = some 1 ∧
        Decoded.ofBytes bytes = .ok ⟨code, #[0, 4, 24, 29, 30]⟩ := by
  have hread : Decoded.ofBytes padded = .ok
      ⟨#[.slot Opcode.aload 0 .wide, .tableSwitch 3 4 [2], .invokeInterface 9 1,
        .simple Opcode.returnVoid], #[0, 4, 24, 29, 30]⟩ := by decide +kernel
  obtain ⟨-, bytes, hcode, -, hzero, hsame, hagain⟩ := ofCode_restores (by decide) hread
  refine ⟨by decide, _, bytes, hread, hcode, ?_, ?_, (hsame 27 ?_).trans rfl, hagain⟩
  · exact hzero 5 ⟨1, _, rfl, by decide, by decide⟩
  · exact hzero 28 ⟨2, _, rfl, rfl⟩
  · rintro ⟨l, insn, hinsn, hskips⟩
    match l, hinsn with
    | 0, rfl | 3, rfl => exact hskips
    | 1, rfl => exact absurd hskips.2 (by decide)
    | 2, rfl => exact absurd hskips (show ¬27 = 24 + 4 by decide)

end Assembled

end ClassText
