import ClassText.Hierarchy.Standard
import ClassText.Proofs.ConstantPool.Store
import ClassText.Proofs.Rewriting.Settling

/-!
# What a failed derivation leaves

Deriving frames should leave the code as it was if it fails. It can fail because
the method cannot be followed, because its code is too long, or because a class
of one of the frames finds no place in the pool. All this comes before the code
is changed.

What comes after it is the name of the table. The limits are raised first, and
then the name is interned, for which there may be no room either: of the two
ways to fail in `deriveFrames_eq_error_iff` the second one leaves the raised
limits behind. It takes a full pool in which the name does not stand
(`ConstantPool.LacksRoomFor`), so where the name is in use already the code is
left as it was (`code_of_deriveFrames_named`).
-/

namespace ClassText

open ConstantPool PoolChange

variable {code after : Code} {method : MethodHead} {hierarchy : Hierarchy}
  {pool grown : ConstantPool} {e : ClassError}

theorem internName_eq_error_iff :
    internText CodeAttribute.frameTable pool = (.error e, grown) ↔
      pool.LacksRoomFor CodeAttribute.frameTable ∧
        e = .poolOverflow (.utf8 CodeAttribute.frameTable) 65535 ∧ grown = pool :=
  PoolCall.internText_eq_error_iff (by decide)

/-- A derivation that fails leaves the code as it was, unless all that is missing is room for the
name of the table. Then the limits have been raised. -/
theorem deriveFrames_eq_error_iff :
    CodeChange.deriveFrames method hierarchy (code, pool) = (.error e, after, grown) ↔
      (code.deriveTable method hierarchy pool = (.error e, grown) ∧ after = code) ∨
      ∃ analysis table,
        code.deriveTable method hierarchy pool = (.ok (analysis, table), grown) ∧
        grown.LacksRoomFor CodeAttribute.frameTable ∧
        e = .poolOverflow (.utf8 CodeAttribute.frameTable) 65535 ∧
        after = code.raiseLimits analysis := by
  constructor
  · intro h
    rw [run_deriveFrames] at h
    rcases hd : code.deriveTable method hierarchy pool with ⟨e' | ⟨analysis, table⟩, p⟩ <;>
      rw [hd] at h
    · obtain ⟨he, hleft⟩ := Prod.mk.inj h
      obtain ⟨rfl, rfl⟩ := Prod.mk.inj hleft
      exact .inl ⟨by rw [Except.error.inj he], rfl⟩
    · dsimp only at h
      rcases hi : internText CodeAttribute.frameTable p with ⟨e' | name, q⟩ <;> rw [hi] at h
      · obtain ⟨hlacks, rfl, rfl⟩ := internName_eq_error_iff.mp hi
        obtain ⟨he, hleft⟩ := Prod.mk.inj h
        obtain ⟨rfl, rfl⟩ := Prod.mk.inj hleft
        exact .inr ⟨analysis, table, rfl, hlacks, (Except.error.inj he).symm, rfl⟩
      · cases (Prod.mk.inj h).1
  · rintro (⟨hd, rfl⟩ | ⟨analysis, table, hd, hlacks, rfl, rfl⟩)
    · rw [run_deriveFrames, hd]
    · rw [run_deriveFrames, hd]
      dsimp only
      rw [internName_eq_error_iff.mpr ⟨hlacks, rfl, rfl⟩]

/-- Where tables of frames have been named before, a derivation that fails leaves the code as it
was. -/
theorem code_of_deriveFrames_named {i : PoolIndex}
    (hname : pool.text? i = some CodeAttribute.frameTable)
    (h : CodeChange.deriveFrames method hierarchy (code, pool) = (.error e, after, grown)) :
    after = code := by
  rw [run_deriveFrames] at h
  rcases hd : code.deriveTable method hierarchy pool with ⟨e' | ⟨analysis, table⟩, p⟩ <;>
    rw [hd] at h
  · exact (Prod.mk.inj (Prod.mk.inj h).2).1.symm
  · have hgrows := ((ensures_deriveTable code method hierarchy pool).of_run hd).1
    dsimp only at h
    rcases hi : internText CodeAttribute.frameTable p with ⟨e' | name, q⟩ <;> rw [hi] at h
    · obtain ⟨hlacks, -⟩ := internName_eq_error_iff.mp hi
      exact absurd (hgrows.text? hname) (hlacks.absent i)
    · cases (Prod.mk.inj h).1

/-! ## A full pool -/

namespace ConstantPool

/-- A pool that is full of other texts. -/
def crowded : ConstantPool where
  slots := (none :: (List.range 65534).map fun i => some (.utf8 ("fill" ++ toString i))).toArray
  size_le := Nat.le_of_eq <| by
    rw [List.size_toArray, List.length_cons, List.length_map, List.length_range]

theorem lacksRoomFor_crowded : crowded.LacksRoomFor CodeAttribute.frameTable where
  full := by
    rw [count, crowded, List.size_toArray, List.length_cons, List.length_map, List.length_range]
  absent i := by
    rw [ne_eq, text?_eq_some_iff, get?_eq_some_iff]
    intro hslot
    have hmem := List.mem_of_getElem? hslot
    rw [crowded, List.mem_cons, List.mem_map] at hmem
    rcases hmem with hnone | ⟨k, -, hk⟩
    · cases hnone
    · have htext : "fill" ++ toString k = "StackMapTable" := Constant.utf8.inj (Option.some.inj hk)
      have hfirst := congrArg (fun t => t.toList.head?) htext
      simp [String.toList_append] at hfirst

end ConstantPool

/-- A method that puts something on the stack and takes it away again, with limits of zero. -/
def Code.idle : Code where
  maxStack := 0
  maxLocals := 0
  instructions := #[.simple Opcode.aconstNull, .simple Opcode.pop, .simple Opcode.returnVoid]
  sourceOffsets := #[0, 1, 2, 3]
  handlers := []
  attributes := []

def MethodHead.idle : MethodHead := ⟨"com/x/A", "m", "()V", true⟩

def Analysis.idle : Analysis := ⟨⟨[], []⟩, [(⟨0, 3⟩, ⟨[], []⟩)], 1⟩

/-- The method needs no frames, but room for one value on its stack. -/
theorem deriveTable_idle (pool : ConstantPool) :
    Code.idle.deriveTable .idle .standard pool = (.ok (.idle, []), pool) := by
  with_unfolding_all rfl

theorem run_deriveFrames_idle (h : pool.LacksRoomFor CodeAttribute.frameTable) :
    CodeChange.deriveFrames .idle .standard (Code.idle, pool) =
      (.error (.poolOverflow (.utf8 CodeAttribute.frameTable) 65535),
        Code.idle.raiseLimits .idle, pool) := by
  rw [run_deriveFrames, deriveTable_idle]
  dsimp only
  rw [internName_eq_error_iff.mpr ⟨h, rfl, rfl⟩]

/-- The derivation fails for want of a name, and the code that it leaves has another limit. -/
theorem deriveFrames_raises_crowded :
    ∃ e after grown,
      CodeChange.deriveFrames .idle .standard (Code.idle, crowded) = (.error e, after, grown) ∧
        Code.idle.maxStack = 0 ∧ after.maxStack = 1 :=
  ⟨_, _, _, run_deriveFrames_idle lacksRoomFor_crowded, rfl, rfl⟩

end ClassText
