import ClassText.Proofs.Code.Codec
import ClassText.Proofs.Frame.Shortest
import Mathlib.Algebra.Ring.Nat

/-!
# How long code is

The length in bytes of what is written of code is that of its instructions and
its handlers, together with what its attributes contribute. No attribute depends
for its length on the layout: `CodeAttribute.length` gives it for the attribute
alone, so that attributes that are kept contribute what they did before
(`Code.length_of_write`). A table of frames has at most so many bytes for each
frame (`FrameTable.length_le`).
-/

namespace ClassText

open Bytes

/-! ## Tables of frames -/

namespace StoredType

theorem length_write_le (t : StoredType) : (write t).length ≤ 3 := by
  cases t with
  | object type => exact Nat.le_refl 3
  | uninitialized site => exact Nat.le_refl 3
  | _ => exact Nat.le_add_left 1 2

theorem length_writeEach_le (types : List StoredType) :
    (writeEach types).length ≤ 3 * types.length := by
  induction types with
  | nil => exact Nat.le_refl 0
  | cons t types ih =>
    have hle := length_write_le t
    rw [writeEach, List.flatMap_cons, List.length_append, List.length_cons]
    exact Nat.le_trans (Nat.add_le_add hle ih) (by omega)

end StoredType

namespace FrameTable

open StoredType

/-- The most bytes that one frame can take: in full, with two lists of types of three bytes that
are as long as their counts allow. -/
def frameLimit : Nat := 7 + 3 * 65535 + 3 * 65535

theorem length_writeDelta_le {delta : FrameDelta PoolIndex UInt16} {bytes : Bytes}
    (h : writeDelta delta = .ok bytes) : bytes.length ≤ frameLimit := by
  unfold frameLimit
  cases delta with
  | same offset =>
    have hle := length_writeTagged_le 0 251 offset
    obtain rfl := Except.ok.inj h
    omega
  | sameOne offset value =>
    have hle := length_writeTagged_le 64 247 offset
    have hvalue := length_write_le value
    obtain rfl := Except.ok.inj h
    rw [List.length_append]
    omega
  | chop offset count =>
    rw [writeDelta] at h
    split at h
    · obtain rfl := Except.ok.inj h
      rw [List.length_cons, length_word16]
      omega
    · cases h
  | append offset locals =>
    rw [writeDelta] at h
    split at h
    · have hlocals : (locals.flatMap StoredType.write).length ≤ 3 * locals.length :=
        length_writeEach_le locals
      obtain rfl := Except.ok.inj h
      rw [List.cons_append, List.length_cons, List.length_append, length_word16]
      omega
    · cases h
  | full offset frame =>
    rw [writeDelta_full] at h
    obtain ⟨hlocals, h⟩ := Success.check_eq_ok.mp h
    obtain ⟨hstack, h⟩ := Success.check_eq_ok.mp h
    obtain rfl := Except.ok.inj h
    have hlocals' := length_writeEach_le frame.locals
    have hstack' := length_writeEach_le frame.stack.reverse
    rw [List.length_reverse] at hstack'
    simp only [List.cons_append, List.length_cons, List.length_append, length_word16]
    omega

/-- A table has as many bytes for each frame at most, after its count. -/
theorem length_le {table : FrameTable} {bytes : Bytes} (h : write table = .ok bytes) :
    bytes.length ≤ 2 + table.length * frameLimit := by
  obtain ⟨-, parts, hparts, rfl⟩ := Written.counted_eq_ok_iff.mp h
  clear h
  rw [List.length_append, length_word16]
  refine Nat.add_le_add_left ?_ 2
  induction hparts with
  | nil => exact Nat.zero_le _
  | cons hpart _ ih =>
    rw [List.flatten_cons, List.length_append, List.length_cons, Nat.succ_mul, Nat.add_comm]
    exact Nat.add_le_add ih (length_writeDelta_le hpart)

end FrameTable

/-! ## Attributes -/

/-- The length of the bytes of a body, which no layout changes. -/
def CodeAttributeBody.length : CodeAttributeBody → Nat
  | .lines entries => 2 + 4 * entries.length
  | .variables entries | .variableTypes entries => 2 + 10 * entries.length
  | .frames table => (FrameTable.write table).toOption.elim 0 List.length
  | .raw bytes => bytes.length

namespace CodeAttribute

/-- The length of the attribute in bytes, with its name and its own length. -/
def length (a : CodeAttribute) : Nat := 6 + a.body.length

theorem length_table {α : Type} (write : α → Bytes) {width : Nat}
    (hwidth : ∀ e, (write e).length = width) {entries : List α} {bytes : Bytes}
    (h : Written.truncated (fun e => .ok (write e)) entries = .ok bytes) :
    bytes.length = 2 + width * entries.length := by
  have hlengths : (entries.map write).map List.length = List.replicate entries.length width := by
    rw [List.map_map, ← List.map_const']
    exact List.map_congr_left fun e _ => hwidth e
  rw [truncated_eq_ok_iff.mp h, List.length_append, length_word16, List.length_flatten, hlengths,
    List.sum_replicate_nat, Nat.mul_comm]

theorem length_of_writeBody {offsets : Array Nat} {body : CodeAttributeBody} {bytes : Bytes}
    (h : writeBody offsets body = .ok bytes) : bytes.length = body.length := by
  rcases body with entries | entries | entries | table | kept
  · exact length_table (writeLine offsets) (fun _ => rfl) h
  · exact length_table (writeVariable offsets) (fun _ => rfl) h
  · exact length_table (writeVariable offsets) (fun _ => rfl) h
  · rw [CodeAttributeBody.length, show FrameTable.write table = .ok bytes from h]
    rfl
  · obtain rfl := Except.ok.inj h
    rfl

theorem length_of_write {offsets : Array Nat} {a : CodeAttribute} {bytes : Bytes}
    (h : write offsets a = .ok bytes) : bytes.length = a.length := by
  obtain ⟨body, hbody, rfl⟩ := Attribute.write_eq_ok_iff.mp h
  rw [List.length_append, Written.block, List.length_append, length_word16, length_word32,
    length_of_writeBody hbody, length]
  omega

end CodeAttribute

/-! ## Code -/

namespace Code

variable {code : Code} {bytes : Bytes}

theorem length_handlers (offsets : Array Nat) (handlers : List Handler) :
    (handlers.map (Handler.write offsets)).flatten.length = 8 * handlers.length := by
  induction handlers with
  | nil => rfl
  | cons handler handlers ih =>
    have hlength : (handler.write offsets).length = 8 := rfl
    rw [List.map_cons, List.flatten_cons, List.length_append, ih, hlength, List.length_cons]
    omega

/-- The limits, the three counts and the length of the instructions take twelve bytes. -/
theorem length_of_write (h : code.write = .ok bytes) :
    ∃ written, code.assemble = .ok written ∧ bytes.length =
      12 + written.bytes.length + 8 * code.handlers.length +
        (code.attributes.map CodeAttribute.length).sum := by
  obtain ⟨offsets, instructions, parts, hcode, hparts, rfl⟩ := write_eq_ok_iff.mp h
  have hattributes : parts.flatten.length = (code.attributes.map CodeAttribute.length).sum := by
    have hlengths : List.Forall₂ (· = ·) (parts.map List.length)
        (code.attributes.map CodeAttribute.length) := by
      rw [List.forall₂_map_left_iff, List.forall₂_map_right_iff]
      exact (hparts.imp fun _ _ hpart => CodeAttribute.length_of_write hpart).flip
    rw [List.forall₂_eq_eq_eq] at hlengths
    rw [List.length_flatten, hlengths]
  refine ⟨_, hcode, ?_⟩
  simp only [List.length_append, length_word16, Written.block, length_word32, length_handlers,
    hattributes]
  omega

end Code

end ClassText
