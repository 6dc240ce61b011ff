import ClassText.Proofs.Frame.Shortest

/-!
# Tables of frames are read as they are written

The tag of a difference holds its form, and whatever else there is room for: a
small offset, or the number of variables that are left out or added. The ranges
of tags lie side by side, so each of them is read as the form that it was
written for (`takes_readDelta`); where a form has two ranges, one is for small
offsets and one for all others.

What there is no room for is never written. So a table can be written exactly if
its numbers fit, and then it is read again (`FrameTable.fits_iff_roundTrips`).
-/

namespace ClassText

open ByteReader Bytes

/-- The numbers of a difference are among those that can be written. -/
def FrameDelta.Fits {κ υ : Type} : FrameDelta κ υ → Prop
  | full _ frame => frame.locals.length ≤ 65535 ∧ frame.stack.length ≤ 65535
  | delta => delta.IsShort

/-- There are not more differences than a count of two bytes can tell, and all of them fit. -/
structure FrameTable.Fits (table : FrameTable) : Prop where
  length_le : table.length ≤ 65535
  deltas : ∀ delta ∈ table, delta.Fits

/-! ## Types -/

namespace StoredType

theorem takes_read (t : StoredType) : read.Takes (write t) t := by
  have hindex (index : UInt16) (f : UInt16 → StoredType) :
      (do return f (← word16)).Takes (Bytes.word16 index) (f index) :=
    takes_map.mpr ⟨index, takes_word16.mpr rfl, rfl⟩
  refine Takes.bind (takes_byte.mpr rfl) ?_
  cases t with
  | object type => exact hindex type .object
  | uninitialized site => exact hindex site .uninitialized
  | _ => exact takes_pure.mpr ⟨rfl, rfl⟩

theorem forall₂_takes (types : List StoredType) :
    List.Forall₂ read.Takes (types.map write) types :=
  List.forall₂_map_left_iff.mpr (List.forall₂_same.mpr fun t _ => takes_read t)

theorem takes_times (types : List StoredType) :
    (times types.length read).Takes (writeEach types) types :=
  ByteReader.takes_times.mpr ⟨_, forall₂_takes types, rfl, List.flatMap_def⟩

theorem takes_readAll {types : List StoredType} (hle : types.length ≤ 65535) :
    readAll.Takes (Bytes.word16 (.ofNat types.length) ++ writeEach types) types :=
  takes_counted.mpr ⟨_, forall₂_takes types, hle, by rw [writeEach, List.flatMap_def]⟩

end StoredType

/-! ## Differences -/

namespace FrameTable

open StoredType

variable {delta : FrameDelta PoolIndex UInt16} {used bytes : Bytes}

theorem exists_writeDelta_iff : (∃ bytes, writeDelta delta = .ok bytes) ↔ delta.Fits := by
  constructor
  · rintro ⟨bytes, h⟩
    cases delta with
    | full offset frame =>
      rw [writeDelta_full] at h
      obtain ⟨hlocals, h⟩ := Success.check_eq_ok.mp h
      obtain ⟨hstack, -⟩ := Success.check_eq_ok.mp h
      exact ⟨Nat.le_of_not_lt hlocals, Nat.le_of_not_lt hstack⟩
    | _ => exact (isShort_of_writeDelta h).resolve_right nofun
  · intro hfits
    cases delta with
    | same | sameOne => exact ⟨_, rfl⟩
    | chop | append => exact ⟨_, if_pos hfits⟩
    | full offset frame =>
      obtain ⟨hlocals, hstack⟩ := hfits
      rw [writeDelta_full, if_neg (Nat.not_lt.mpr hlocals), if_neg (Nat.not_lt.mpr hstack)]
      exact ⟨_, rfl⟩

theorem takes_tag (tag : Nat) (htag : tag < 256) (h : (readTagged tag).Takes used delta) :
    readDelta.Takes (.ofNat tag :: used) delta := by
  refine takes_bind.mpr ⟨[.ofNat tag], used, _, rfl, takes_byte.mpr rfl, ?_⟩
  rwa [UInt8.toNat_ofNat_of_lt' htag]

/-- A difference is read again from its bytes: no two forms share a tag. -/
theorem takes_readDelta (h : writeDelta delta = .ok bytes) : readDelta.Takes bytes delta := by
  have hfits := exists_writeDelta_iff.mp ⟨bytes, h⟩
  cases delta with
  | same offset =>
    obtain rfl := Except.ok.inj h
    rw [writeTagged]
    split
    · refine takes_tag _ (by omega) ?_
      rw [readTagged, if_pos (by omega), Nat.zero_add, UInt16.ofNat_toNat]
      exact takes_pure.mpr ⟨rfl, rfl⟩
    · refine takes_tag 251 (by decide) ?_
      exact takes_map.mpr ⟨offset, takes_word16.mpr rfl, rfl⟩
  | sameOne offset value =>
    obtain rfl := Except.ok.inj h
    rw [writeTagged]
    split
    · refine takes_tag _ (by omega) ?_
      rw [readTagged, if_neg (by omega), if_pos (by omega), Nat.add_sub_cancel_left,
        UInt16.ofNat_toNat]
      exact takes_map.mpr ⟨value, takes_read value, rfl⟩
    · refine takes_tag 247 (by decide) ?_
      exact Takes.bind (takes_word16.mpr rfl) (takes_map.mpr ⟨value, takes_read value, rfl⟩)
  | chop offset count =>
    -- Without the bounds the tag would lie in the range of another form.
    obtain ⟨hpos, hle⟩ : 1 ≤ count ∧ count ≤ 3 := hfits
    rw [writeDelta, if_pos ⟨hpos, hle⟩] at h
    obtain rfl := Except.ok.inj h
    refine takes_tag _ (by omega) ?_
    rw [readTagged, if_neg (by omega), if_neg (by omega), if_neg (by omega)]
    refine takes_bind.mpr ⟨_, [], offset, (List.append_nil _).symm, takes_word16.mpr rfl, ?_⟩
    rw [if_neg (by omega), if_pos (by omega), Nat.sub_sub_self (by omega)]
    exact takes_pure.mpr ⟨rfl, rfl⟩
  | append offset locals =>
    obtain ⟨hpos, hle⟩ : 1 ≤ locals.length ∧ locals.length ≤ 3 := hfits
    rw [writeDelta, if_pos ⟨hpos, hle⟩] at h
    obtain rfl := Except.ok.inj h
    refine takes_tag _ (by omega) ?_
    rw [readTagged, if_neg (by omega), if_neg (by omega), if_neg (by omega)]
    refine Takes.bind (takes_word16.mpr rfl) ?_
    rw [if_neg (by omega), if_neg (by omega), if_neg (by omega), if_pos (by omega),
      Nat.add_sub_cancel_left]
    exact takes_map.mpr ⟨locals, takes_times locals, rfl⟩
  | full offset frame =>
    rw [writeDelta_full] at h
    obtain ⟨hlocals, h⟩ := Success.check_eq_ok.mp h
    obtain ⟨hstack, h⟩ := Success.check_eq_ok.mp h
    obtain rfl := Except.ok.inj h
    have hlength : frame.stack.reverse.length = frame.stack.length := List.length_reverse
    rw [List.cons_append, List.cons_append, List.append_assoc, ← hlength]
    refine takes_tag 255 (by decide) ?_
    refine Takes.bind (takes_word16.mpr rfl) (Takes.bind (takes_readAll (by omega)) ?_)
    refine takes_map.mpr ⟨_, takes_readAll (by omega), ?_⟩
    rw [List.reverse_reverse]

/-! ## Tables -/

/-- A table can be written if and only if its numbers fit. Then it is read again from its bytes,
whatever comes behind them, and exactly these bytes are taken. -/
theorem fits_iff_roundTrips (table : FrameTable) :
    table.Fits ↔ ∃ bytes, write table = .ok bytes ∧
      ∀ rest, read.run (bytes ++ rest) = .ok (table, rest) := by
  constructor
  · rintro ⟨hle, hdeltas⟩
    obtain ⟨parts, hparts⟩ := Success.exists_forall₂ fun delta hdelta =>
      exists_writeDelta_iff.mpr (hdeltas delta hdelta)
    refine ⟨_, Written.counted_eq_ok_iff.mpr ⟨hle, parts, hparts, rfl⟩, ?_⟩
    exact takes_counted.mpr ⟨parts, (hparts.imp fun _ _ h => takes_readDelta h).flip, hle, rfl⟩
  · rintro ⟨bytes, hwrite, -⟩
    exact ⟨(Written.counted_eq_ok_iff.mp hwrite).1, fun delta hdelta =>
      exists_writeDelta_iff.mp (Written.write_of_counted hwrite hdelta)⟩

/-- Both ranges of tags for small and large offsets, and each of the other forms. -/
example : write [.same 63, .same 64, .sameOne 2 (.object 4), .sameOne 300 .null, .chop 1 2,
    .append 0 [.integer, .long], .full 9 ⟨[.top], [.uninitialized 12, .float]⟩] =
      .ok [0, 7, 63, 251, 0, 64, 66, 7, 0, 4, 247, 1, 44, 5, 249, 0, 1, 253, 0, 0, 1, 4,
        255, 0, 9, 0, 1, 0, 0, 2, 2, 8, 0, 12] := rfl

end FrameTable

end ClassText
