import ClassText.Frame.Delta.Codec
import ClassText.Proofs.Bytes.Takes
import ClassText.Proofs.Frame.Delta

/-!
# The shortest difference

A frame can be given as its difference from the one before it in several forms,
of which the full one is always there. The short ones are those that a class
file has room for: only one to three variables less or more. If a short form
leads to a frame, it is the only one with its offset, and `Frame.deltaFrom` finds
it (`deltaFrom_of_isShort`). So the full form is left for frames that no short
one leads to. A short form can always be written, in fewer bytes than the full
one (`deltaFrom_isLeast`).
-/

namespace ClassText

open Bytes

/-- One of the forms that leave most of a frame out, within the numbers that they have room for. -/
def FrameDelta.IsShort {κ υ : Type} : FrameDelta κ υ → Prop
  | same _ | sameOne _ _ => True
  | chop _ count => 1 ≤ count ∧ count ≤ 3
  | append _ locals => 1 ≤ locals.length ∧ locals.length ≤ 3
  | full _ _ => False

namespace FrameDelta

variable {κ υ : Type}

/-- The same difference at another offset. -/
def moved (offset : UInt16) : FrameDelta κ υ → FrameDelta κ υ
  | same _ => same offset
  | sameOne _ value => sameOne offset value
  | chop _ count => chop offset count
  | append _ locals => append offset locals
  | full _ frame => full offset frame

theorem offset_moved (delta : FrameDelta κ υ) (offset : UInt16) :
    (delta.moved offset).offset = offset := by
  cases delta <;> rfl

theorem moved_offset (delta : FrameDelta κ υ) : delta.moved delta.offset = delta := by
  cases delta <;> rfl

theorem isShort_moved {delta : FrameDelta κ υ} (offset : UInt16) :
    (delta.moved offset).IsShort ↔ delta.IsShort := by
  cases delta <;> exact Iff.rfl

theorem after?_moved (previous : Frame κ υ) (delta : FrameDelta κ υ) (offset : UInt16) :
    previous.after? (delta.moved offset) = previous.after? delta := by
  cases delta <;> rfl

end FrameDelta

/-! ## Which form is found -/

namespace Frame

variable {κ υ : Type} [DecidableEq κ] [DecidableEq υ] {frame previous : Frame κ υ}

theorem deltaFrom_cases (frame previous : Frame κ υ) (offset : UInt16) :
    (frame.deltaFrom previous offset).IsShort ∨
      frame.deltaFrom previous offset = .full offset frame := by
  unfold deltaFrom
  dsimp only
  split
  · split
    · exact .inl trivial
    split
    · next hchop =>
      obtain ⟨hlt, hle, -⟩ := hchop
      exact .inl ⟨by omega, by omega⟩
    split
    · next happend =>
      obtain ⟨hlt, hle, -⟩ := happend
      refine .inl ?_
      rw [FrameDelta.IsShort, List.length_drop]
      omega
    · exact .inr rfl
  · split
    · exact .inl trivial
    · exact .inr rfl
  · exact .inr rfl

/-- A short form that leads to a frame is the one that is found for it. -/
theorem deltaFrom_of_isShort {delta : FrameDelta κ υ} (hshort : delta.IsShort)
    (h : previous.after? delta = some frame) :
    frame.deltaFrom previous delta.offset = delta := by
  cases delta with
  | same offset =>
    obtain rfl := Option.some.inj h
    simp only [deltaFrom, FrameDelta.offset, if_true]
  | sameOne offset value =>
    obtain rfl := Option.some.inj h
    simp only [deltaFrom, FrameDelta.offset, if_true]
  | chop offset count =>
    obtain ⟨hpos, hle⟩ := hshort
    rw [after?] at h
    split at h
    · next hcount =>
      obtain rfl := Option.some.inj h
      have hlength : (previous.locals.take (previous.locals.length - count)).length =
          previous.locals.length - count := by
        rw [List.length_take]
        omega
      have hne : previous.locals.take (previous.locals.length - count) ≠ previous.locals := by
        intro heq
        rw [heq] at hlength
        omega
      simp only [deltaFrom, FrameDelta.offset, hlength]
      rw [if_neg hne, if_pos ⟨by omega, by omega, List.take_prefix ..⟩]
      exact congrArg _ (by omega)
    · cases h
  | append offset locals =>
    obtain ⟨hpos, hle⟩ := hshort
    obtain rfl := Option.some.inj h
    have hlength : (previous.locals ++ locals).length =
        previous.locals.length + locals.length := List.length_append
    have hne : previous.locals ++ locals ≠ previous.locals := by
      intro heq
      rw [heq] at hlength
      omega
    simp only [deltaFrom, FrameDelta.offset, hlength]
    rw [if_neg hne, if_neg (by omega), if_pos ⟨by omega, by omega, List.prefix_append ..⟩,
      List.drop_left]
  | full offset other => exact hshort.elim

/-- Of the short forms that lead to a frame there is one for each offset. -/
theorem deltaFrom_eq_moved {delta : FrameDelta κ υ} (hshort : delta.IsShort)
    (h : previous.after? delta = some frame) (offset : UInt16) :
    frame.deltaFrom previous offset = delta.moved offset := by
  have hfound := deltaFrom_of_isShort ((FrameDelta.isShort_moved offset).mpr hshort)
    ((FrameDelta.after?_moved previous delta offset).trans h)
  rwa [FrameDelta.offset_moved] at hfound

end Frame

/-! ## What is written -/

namespace StoredType

/-- The bytes of types one after the other. -/
abbrev writeEach (types : List StoredType) : Bytes :=
  types.flatMap write

theorem writeAll_eq (types : List StoredType) :
    writeAll types = if 65535 < types.length then .error (.tooMany types.length)
      else .ok (word16 (.ofNat types.length) ++ writeEach types) := by
  have hbody : Written.concat (fun t => .ok (write t)) types = .ok (writeEach types) := by
    refine Written.concat_eq_ok_iff.mpr ⟨types.map write, ?_, by rw [writeEach, List.flatMap_def]⟩
    exact List.forall₂_map_right_iff.mpr (List.forall₂_same.mpr fun _ _ => rfl)
  rw [writeAll, Written.counted, hbody]
  rfl

end StoredType

namespace FrameTable

open StoredType

variable {delta : FrameDelta PoolIndex UInt16} {frame previous : StoredFrame} {bytes : Bytes}

theorem length_writeTagged_le (base extended : Nat) (offset : UInt16) :
    (writeTagged base extended offset).length ≤ 3 := by
  unfold writeTagged
  split
  · exact Nat.le_add_left 1 2
  · exact Nat.le_refl 3

theorem writeDelta_full (offset : UInt16) (frame : StoredFrame) :
    writeDelta (.full offset frame) =
      if 65535 < frame.locals.length then .error (.tooMany frame.locals.length)
      else if 65535 < frame.stack.length then .error (.tooMany frame.stack.length)
      else .ok (255 :: word16 offset ++
        (word16 (.ofNat frame.locals.length) ++ writeEach frame.locals) ++
        (word16 (.ofNat frame.stack.length) ++ writeEach frame.stack.reverse)) := by
  rw [writeDelta, writeAll_eq, writeAll_eq, List.length_reverse]
  split
  · rfl
  split <;> rfl

theorem length_of_writeDelta_full {offset : UInt16}
    (h : writeDelta (.full offset frame) = .ok bytes) :
    7 + (writeEach frame.locals).length + (writeEach frame.stack.reverse).length ≤
      bytes.length := by
  rw [writeDelta_full] at h
  obtain ⟨-, h⟩ := Success.check_eq_ok.mp h
  obtain ⟨-, h⟩ := Success.check_eq_ok.mp h
  obtain rfl := Except.ok.inj h
  simp only [List.cons_append, List.length_cons, List.length_append, length_word16]
  omega

/-- A short form can be written, and takes no more bytes than the frame in full. -/
theorem exists_writeDelta (hshort : delta.IsShort) (h : previous.after? delta = some frame) :
    ∃ bytes, writeDelta delta = .ok bytes ∧
      bytes.length ≤ 7 + (writeEach frame.locals).length +
        (writeEach frame.stack.reverse).length := by
  cases delta with
  | same offset =>
    have hle := length_writeTagged_le 0 251 offset
    exact ⟨_, rfl, by omega⟩
  | sameOne offset value =>
    obtain rfl := Option.some.inj h
    have hle := length_writeTagged_le 64 247 offset
    refine ⟨_, rfl, ?_⟩
    rw [List.reverse_singleton, writeEach, writeEach, List.flatMap_singleton, List.length_append]
    omega
  | chop offset count =>
    refine ⟨_, if_pos hshort, ?_⟩
    rw [List.length_cons, length_word16]
    omega
  | append offset locals =>
    obtain rfl := Option.some.inj h
    refine ⟨_, if_pos hshort, ?_⟩
    rw [List.cons_append, List.length_cons, List.length_append, length_word16, writeEach, writeEach,
      List.flatMap_append, List.length_append]
    omega
  | full offset other => exact hshort.elim

/-- What can be written is short or full. -/
theorem isShort_of_writeDelta (h : writeDelta delta = .ok bytes) :
    delta.IsShort ∨ ∃ frame, delta = .full delta.offset frame := by
  cases delta with
  | same offset => exact .inl trivial
  | sameOne offset value => exact .inl trivial
  | chop offset count =>
    rw [writeDelta] at h
    split at h
    · next hshort => exact .inl hshort
    · cases h
  | append offset locals =>
    rw [writeDelta] at h
    split at h
    · next hshort => exact .inl hshort
    · cases h
  | full offset other => exact .inr ⟨other, rfl⟩

end FrameTable

/-! ## The least difference -/

open FrameTable

/-- What is to be said of the difference that is chosen between two frames. -/
structure FrameDelta.IsLeast (delta : FrameDelta PoolIndex UInt16) (previous frame : StoredFrame) :
    Prop where
  leads : previous.after? delta = some frame
  form : delta.IsShort ∨ delta = .full delta.offset frame
  /-- The full form is chosen only if no short form leads to the frame. -/
  full : ∀ offset other, delta = .full offset other →
    ∀ short : FrameDelta PoolIndex UInt16, short.IsShort → previous.after? short ≠ some frame
  /-- A short form that leads to the frame is this one, but for its offset. -/
  short : ∀ other : FrameDelta PoolIndex UInt16, other.IsShort →
    previous.after? other = some frame → delta = other.moved delta.offset
  /-- Writing it never fails for the number of variables that are left out or added. -/
  fault : ∀ fault, writeDelta delta = .error fault →
    delta = .full delta.offset frame ∧ ∃ n, 65535 < n ∧ fault = .tooMany n
  /-- No difference with this offset that leads to the frame takes fewer bytes. -/
  least : ∀ (other : FrameDelta PoolIndex UInt16) (bytes : Bytes), other.offset = delta.offset →
    previous.after? other = some frame → writeDelta other = .ok bytes →
      ∃ fewest, writeDelta delta = .ok fewest ∧ fewest.length ≤ bytes.length

/-- The difference that is found has the offset that was asked for and leads to the frame. It is
short if any short form leads there, and full only if none does. It can be written if any
difference that leads there can, and takes no more bytes than that one. -/
theorem StoredFrame.deltaFrom_isLeast (frame previous : StoredFrame) (offset : UInt16) :
    (frame.deltaFrom previous offset).offset = offset ∧
      (frame.deltaFrom previous offset).IsLeast previous frame := by
  have hoffset := frame.offset_deltaFrom previous offset
  have hleads := frame.after?_deltaFrom previous offset
  have hcases := frame.deltaFrom_cases previous offset
  refine ⟨hoffset, hleads, by rwa [hoffset], ?_, ?_, ?_, ?_⟩
  · intro offset' other hfull short hshort h
    have hmoved := Frame.deltaFrom_eq_moved hshort h offset
    have hnot : ¬(short.moved offset).IsShort := by
      rw [← hmoved, hfull]
      exact id
    exact hnot ((FrameDelta.isShort_moved offset).mpr hshort)
  · intro other hother h
    rw [hoffset]
    exact Frame.deltaFrom_eq_moved hother h offset
  · intro fault hfault
    rcases hcases with hshort | hfull
    · obtain ⟨bytes, hbytes, -⟩ := exists_writeDelta hshort hleads
      cases hbytes.symm.trans hfault
    · rw [hfull, writeDelta_full] at hfault
      refine ⟨by rw [hoffset, hfull], ?_⟩
      split at hfault
      · next hlong => exact ⟨_, hlong, (Except.error.inj hfault).symm⟩
      split at hfault
      · next hlong => exact ⟨_, hlong, (Except.error.inj hfault).symm⟩
      · cases hfault
  · intro other bytes heq h hwrite
    rw [hoffset] at heq
    rcases isShort_of_writeDelta hwrite with hother | ⟨full, hother⟩
    · -- a short form that leads there has been found
      refine ⟨bytes, ?_, Nat.le_refl _⟩
      rw [Frame.deltaFrom_eq_moved hother h offset, ← heq, FrameDelta.moved_offset, hwrite]
    · rw [heq] at hother
      subst hother
      obtain rfl : full = frame := Option.some.inj h
      rcases hcases with hshort | hfull
      · obtain ⟨fewest, hfewest, hle⟩ := exists_writeDelta hshort hleads
        exact ⟨fewest, hfewest, Nat.le_trans hle (length_of_writeDelta_full hwrite)⟩
      · exact ⟨bytes, by rw [hfull, hwrite], Nat.le_refl _⟩

end ClassText
