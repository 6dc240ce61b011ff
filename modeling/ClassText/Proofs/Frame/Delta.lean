import ClassText.Frame.Delta
import ClassText.Proofs.Success

/-!
# Differences lead back to frames

The difference that is written for a frame leads to it from the frame before
(`after?_deltaFrom`). When a table is read, the types in a difference are
replaced, and then it is followed from a frame whose types have been replaced as
well. That leads to the frame whose types are replaced afterwards
(`FrameDelta.exists_read`), so writing and reading need not agree on anything but
single types.
-/

namespace ClassText

variable {κ υ κ' υ' : Type}

namespace Frame

theorem after?_deltaFrom [DecidableEq κ] [DecidableEq υ] (frame previous : Frame κ υ)
    (offset : UInt16) : previous.after? (frame.deltaFrom previous offset) = some frame := by
  obtain ⟨locals, stack⟩ := frame
  unfold deltaFrom
  dsimp only
  split
  · split
    · next heq => rw [after?, heq]
    split
    · next hchop =>
      obtain ⟨hlt, -, hprefix⟩ := hchop
      have hcount : previous.locals.length - (previous.locals.length - locals.length) =
          locals.length := by
        omega
      rw [after?, if_pos (Nat.sub_le ..), hcount, ← List.prefix_iff_eq_take.mp hprefix]
    split
    · next happend =>
      obtain ⟨-, -, hprefix⟩ := happend
      rw [after?, ← List.prefix_iff_eq_append.mp hprefix]
      simp
    · rfl
  · split
    · next heq => rw [after?, heq]
    · rfl
  · rfl

theorem offset_deltaFrom [DecidableEq κ] [DecidableEq υ] (frame previous : Frame κ υ)
    (offset : UInt16) : (frame.deltaFrom previous offset).offset = offset := by
  unfold deltaFrom
  dsimp only
  repeat' split
  all_goals rfl

/-- Type by type, the second frame is what the first one is read as. -/
structure IsRead (f : κ → Option κ') (g : υ → Option υ') (frame : Frame κ υ)
    (read : Frame κ' υ') : Prop where
  locals : List.Forall₂ (fun t u => t.mapM f g = some u) frame.locals read.locals
  stack : List.Forall₂ (fun t u => t.mapM f g = some u) frame.stack read.stack

end Frame

namespace FrameDelta

/-- The types that stand in a difference. -/
def types : FrameDelta κ υ → List (VerificationType κ υ)
  | same _ | chop _ _ => []
  | sameOne _ value => [value]
  | append _ locals => locals
  | full _ frame => frame.locals ++ frame.stack

variable {f : κ → Option κ'} {g : υ → Option υ'}

theorem read_unique {types : List (VerificationType κ υ)}
    {read other : List (VerificationType κ' υ')}
    (h : List.Forall₂ (fun t u => t.mapM f g = some u) types read)
    (h' : List.Forall₂ (fun t u => t.mapM f g = some u) types other) : read = other :=
  Option.some.inj ((Success.mapM_eq_some.mpr h).symm.trans (Success.mapM_eq_some.mpr h'))

/-- A difference between two frames is read as a difference between what they are read as. -/
theorem exists_read {delta : FrameDelta κ υ} {previous frame : Frame κ υ}
    {readPrevious read : Frame κ' υ'} (hafter : previous.after? delta = some frame)
    (hprevious : previous.IsRead f g readPrevious) (hframe : frame.IsRead f g read) :
    ∃ readDelta, delta.mapM f g = some readDelta ∧ readDelta.offset = delta.offset ∧
      readPrevious.after? readDelta = some read := by
  obtain ⟨readLocals, readStack⟩ := read
  cases delta with
  | same offset =>
    cases hafter
    obtain rfl := read_unique hprevious.locals hframe.locals
    obtain rfl := List.forall₂_nil_left_iff.mp hframe.stack
    exact ⟨.same offset, rfl, rfl, rfl⟩
  | sameOne offset value =>
    cases hafter
    obtain rfl := read_unique hprevious.locals hframe.locals
    obtain ⟨readValue, _, hvalue, hnil, rfl⟩ := List.forall₂_cons_left_iff.mp hframe.stack
    obtain rfl := List.forall₂_nil_left_iff.mp hnil
    exact ⟨.sameOne offset readValue, by rw [mapM, hvalue]; rfl, rfl, rfl⟩
  | chop offset count =>
    rw [Frame.after?] at hafter
    split at hafter
    · next hle =>
      cases hafter
      have hlength := hprevious.locals.length_eq
      have hkept := List.forall₂_take (previous.locals.length - count) hprevious.locals
      obtain rfl := read_unique hkept hframe.locals
      obtain rfl := List.forall₂_nil_left_iff.mp hframe.stack
      refine ⟨.chop offset count, rfl, rfl, ?_⟩
      rw [Frame.after?, if_pos (hlength ▸ hle), hlength]
    · cases hafter
  | append offset locals =>
    cases hafter
    obtain rfl := List.forall₂_nil_left_iff.mp hframe.stack
    have hkept := List.forall₂_take previous.locals.length hframe.locals
    have hadded := List.forall₂_drop previous.locals.length hframe.locals
    rw [List.take_left] at hkept
    rw [List.drop_left] at hadded
    have heq := read_unique hprevious.locals hkept
    refine ⟨.append offset (readLocals.drop previous.locals.length), ?_, rfl, ?_⟩
    · rw [mapM, Success.mapM_eq_some.mpr hadded]
      rfl
    · rw [Frame.after?, heq, List.take_append_drop]
  | full offset frame' =>
    cases hafter
    refine ⟨.full offset ⟨readLocals, readStack⟩, ?_, rfl, rfl⟩
    rw [mapM, Success.mapM_eq_some.mpr hframe.locals, Success.mapM_eq_some.mpr hframe.stack]
    rfl

/-- Every type in a difference that was read is what some type is read as. -/
theorem exists_of_mem_types {delta : FrameDelta κ υ} {read : FrameDelta κ' υ'}
    (h : delta.mapM f g = some read) {u : VerificationType κ' υ'} (hu : u ∈ read.types) :
    ∃ t : VerificationType κ υ, t.mapM f g = some u := by
  have hall {types : List (VerificationType κ υ)} {readTypes : List (VerificationType κ' υ')}
      (htypes : types.mapM (·.mapM f g) = some readTypes) (hmem : u ∈ readTypes) :
      ∃ t : VerificationType κ υ, t.mapM f g = some u :=
    Success.exists_of_mem_right (Success.mapM_eq_some.mp htypes) u hmem
  cases delta with
  | same offset =>
    cases h
    cases hu
  | sameOne offset value =>
    obtain ⟨readValue, hvalue, h⟩ := Option.bind_eq_some_iff.mp h
    cases h
    exact ⟨value, List.mem_singleton.mp hu ▸ hvalue⟩
  | chop offset count =>
    cases h
    cases hu
  | append offset locals =>
    obtain ⟨readLocals, hlocals, h⟩ := Option.bind_eq_some_iff.mp h
    cases h
    exact hall hlocals hu
  | full offset frame =>
    obtain ⟨readLocals, hlocals, h⟩ := Option.bind_eq_some_iff.mp h
    obtain ⟨readStack, hstack, h⟩ := Option.bind_eq_some_iff.mp h
    cases h
    exact (List.mem_append.mp hu).elim (hall hlocals) (hall hstack)

end FrameDelta

/-- The types of a frame are among those of the difference and of the frame before. -/
theorem Frame.mem_of_after? {previous frame : Frame κ υ} {delta : FrameDelta κ υ}
    (h : previous.after? delta = some frame) {t : VerificationType κ υ}
    (ht : t ∈ frame.locals ∨ t ∈ frame.stack) : t ∈ previous.locals ∨ t ∈ delta.types := by
  cases delta with
  | same offset =>
    cases h
    exact ht.imp_right fun ht => nomatch ht
  | sameOne offset value =>
    cases h
    exact ht
  | chop offset count =>
    rw [after?] at h
    split at h <;> cases h
    exact .inl (List.mem_of_mem_take (ht.resolve_right List.not_mem_nil))
  | append offset locals =>
    cases h
    exact List.mem_append.mp (ht.resolve_right List.not_mem_nil)
  | full offset frame' =>
    cases h
    exact .inr (List.mem_append.mpr ht)

end ClassText
