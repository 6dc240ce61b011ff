import ClassText.Proofs.Success
import ClassText.Text.ModifiedUtf8
import Mathlib.Tactic.Common

/-!
# Texts and their bytes

The bytes of a text are groups of one to three bytes, one for each code unit
(`Spells`). Bytes are decoded to a text exactly if they are such groups for its
units (`decode?_eq_some_iff`). A unit is encoded as its shortest group, so what
was encoded is decoded to the same text (`decode?_encode`); the bytes of an
encoding are told by those of its groups.

In the other direction bytes are kept only if no group is longer than its unit
needs. The first two bytes of a group tell whether it is, and no other two
bytes look like these. So it is enough to look at neighbouring bytes
(`encode_eq_iff`), wherever they stand.

All of that is about two stages one after the other: bytes and units, and
units and characters. At the second stage nothing is lost in either direction.
-/

namespace ClassText.ModifiedUtf8

/-! ## Bytes and units -/

/-- A byte that follows the first one of a group carries six bits. -/
theorem continuation?_eq_some_iff {b : UInt8} {v : Nat} :
    continuation? b = some v ↔ v < 64 ∧ b = .ofNat (0x80 + v) := by
  unfold continuation?
  have hb := b.toNat_lt
  constructor
  · intro h
    split at h
    · obtain rfl := Option.some.inj h
      refine ⟨by omega, ?_⟩
      rw [show 0x80 + b.toNat % 64 = b.toNat by omega, UInt8.ofNat_toNat]
    · cases h
  · rintro ⟨hv, rfl⟩
    rw [UInt8.toNat_ofNat_of_lt' (show 0x80 + v < 256 by omega), if_pos (by omega)]
    exact congrArg some (by omega)

theorem continuation?_ofNat {v : Nat} (h : v < 64) :
    continuation? (.ofNat (0x80 + v)) = some v :=
  continuation?_eq_some_iff.mpr ⟨h, rfl⟩

theorem length_encodeUnit (u : Nat) : (encodeUnit u).length = unitLength u := by
  unfold encodeUnit unitLength
  split
  · rfl
  split <;> rfl

/-- The bytes are a group for the unit: one byte, two or three, but not fewer than it needs. -/
inductive Spells (u : Nat) : Bytes → Prop
  | one (hpos : 1 ≤ u) (hle : u ≤ 0x7F) : Spells u [.ofNat u]
  | two (hle : u ≤ 0x7FF) : Spells u [.ofNat (0xC0 + u / 64), .ofNat (0x80 + u % 64)]
  | three (hle : u ≤ 0xFFFF) : Spells u
      [.ofNat (0xE0 + u / 4096), .ofNat (0x80 + u / 64 % 64), .ofNat (0x80 + u % 64)]

namespace Spells

variable {u : Nat} {group : Bytes}

theorem lt (h : Spells u group) : u < 65536 := by
  cases h <;> omega

theorem unitLength_le (h : Spells u group) : unitLength u ≤ group.length := by
  unfold unitLength
  cases h with
  | one hpos hle => rw [if_pos ⟨hpos, hle⟩]; exact Nat.le_refl 1
  | two hle =>
    rw [if_pos hle]
    split
    · exact Nat.le_succ 1
    · exact Nat.le_refl 2
  | three hle =>
    split
    · exact Nat.le_add_left 1 2
    split
    · exact Nat.le_succ 2
    · exact Nat.le_refl 3

theorem ne_zero_of_mem (h : Spells u group) {b : UInt8} (hb : b ∈ group) :
    b ≠ 0 ∧ b.toNat < 0xF0 := by
  have hbyte : ∀ n, 1 ≤ n → n < 0xF0 → UInt8.ofNat n ≠ 0 ∧ (UInt8.ofNat n).toNat < 0xF0 := by
    intro n hpos hlt
    rw [Ne, ← UInt8.toNat_inj, UInt8.toNat_ofNat_of_lt' (show n < 256 by omega), UInt8.toNat_zero]
    omega
  cases h with
  | one hpos hle =>
    obtain rfl := List.mem_singleton.mp hb
    exact hbyte _ hpos (by omega)
  | two hle =>
    rcases List.mem_pair.mp hb with rfl | rfl
    · exact hbyte _ (by omega) (by omega)
    · exact hbyte _ (by omega) (by omega)
  | three hle =>
    rcases List.mem_cons.mp hb with rfl | hb
    · exact hbyte _ (by omega) (by omega)
    rcases List.mem_pair.mp hb with rfl | rfl
    · exact hbyte _ (by omega) (by omega)
    · exact hbyte _ (by omega) (by omega)

theorem decodeUnit?_append (h : Spells u group) (rest : Bytes) :
    decodeUnit? (group ++ rest) = some (u, rest) := by
  cases h with
  | one hpos hle =>
    have hb : (UInt8.ofNat u).toNat = u := UInt8.toNat_ofNat_of_lt' (show _ < 256 by omega)
    simp only [List.singleton_append, decodeUnit?, hb, hpos, hle, and_self, if_true]
  | two hle =>
    have hhigh : (UInt8.ofNat (0xC0 + u / 64)).toNat = 0xC0 + u / 64 :=
      UInt8.toNat_ofNat_of_lt' (show _ < 256 by omega)
    have hlow : continuation? (.ofNat (0x80 + u % 64)) = some (u % 64) :=
      continuation?_ofNat (Nat.mod_lt _ (by omega))
    rw [List.cons_append, List.singleton_append, decodeUnit?, hhigh,
      if_neg (by omega), if_pos (by omega)]
    simp only [hlow, Option.map_some, Option.some.injEq, Prod.mk.injEq, and_true]
    omega
  | three hle =>
    have hhigh : (UInt8.ofNat (0xE0 + u / 4096)).toNat = 0xE0 + u / 4096 :=
      UInt8.toNat_ofNat_of_lt' (show _ < 256 by omega)
    have hmid : continuation? (.ofNat (0x80 + u / 64 % 64)) = some (u / 64 % 64) :=
      continuation?_ofNat (Nat.mod_lt _ (by omega))
    have hlow : continuation? (.ofNat (0x80 + u % 64)) = some (u % 64) :=
      continuation?_ofNat (Nat.mod_lt _ (by omega))
    rw [List.cons_append, List.cons_append, List.singleton_append, decodeUnit?,
      hhigh, if_neg (by omega), if_neg (by omega), if_pos (by omega)]
    simp only [hmid, hlow, Option.some.injEq, Prod.mk.injEq, and_true]
    omega

end Spells

/-- A unit is encoded as the shortest of its groups. -/
theorem spells_encodeUnit {u : Nat} (hu : u < 65536) : Spells u (encodeUnit u) := by
  unfold encodeUnit
  split
  · next hone => exact .one hone.1 hone.2
  split
  · next htwo => exact .two htwo
  · exact .three (by omega)

/-- The first unit of some bytes is read from a group for it, which they begin with. -/
theorem decodeUnit?_eq_some_iff {bytes rest : Bytes} {u : Nat} :
    decodeUnit? bytes = some (u, rest) ↔ ∃ group, Spells u group ∧ bytes = group ++ rest := by
  constructor
  · intro h
    cases bytes with
    | nil => cases h
    | cons b tail =>
      have hb := b.toNat_lt
      simp only [decodeUnit?] at h
      split at h
      · next hone =>
        cases h
        have hgroup := Spells.one hone.1 hone.2
        rw [UInt8.ofNat_toNat] at hgroup
        exact ⟨[b], hgroup, rfl⟩
      split at h
      · next hnot htwo =>
        cases tail with
        | nil => cases h
        | cons b₂ tail =>
          obtain ⟨low, hb₂, heq⟩ := Option.map_eq_some_iff.mp h
          cases heq
          obtain ⟨hlow, rfl⟩ := continuation?_eq_some_iff.mp hb₂
          refine ⟨[b, .ofNat (0x80 + low)], ?_, rfl⟩
          have hgroup := Spells.two (u := (b.toNat - 0xC0) * 64 + low) (by omega)
          rwa [show 0xC0 + ((b.toNat - 0xC0) * 64 + low) / 64 = b.toNat by omega,
            show ((b.toNat - 0xC0) * 64 + low) % 64 = low by omega, UInt8.ofNat_toNat] at hgroup
      split at h
      · next hnot hnot' hthree =>
        obtain _ | ⟨b₂, _ | ⟨b₃, tail⟩⟩ := tail
        · cases h
        · cases h
        · dsimp only at h
          split at h
          · next mid low hb₂ hb₃ =>
            cases h
            obtain ⟨hmid, rfl⟩ := continuation?_eq_some_iff.mp hb₂
            obtain ⟨hlow, rfl⟩ := continuation?_eq_some_iff.mp hb₃
            refine ⟨[b, .ofNat (0x80 + mid), .ofNat (0x80 + low)], ?_, rfl⟩
            have hgroup := Spells.three (u := (b.toNat - 0xE0) * 4096 + mid * 64 + low) (by omega)
            rwa [show 0xE0 + ((b.toNat - 0xE0) * 4096 + mid * 64 + low) / 4096 = b.toNat by omega,
              show ((b.toNat - 0xE0) * 4096 + mid * 64 + low) / 64 % 64 = mid by omega,
              show ((b.toNat - 0xE0) * 4096 + mid * 64 + low) % 64 = low by omega,
              UInt8.ofNat_toNat] at hgroup
          · cases h
      · cases h
  · rintro ⟨group, hgroup, rfl⟩
    exact hgroup.decodeUnit?_append rest

theorem decodeUnits_nil (read : List Nat) : decodeUnits read [] = some read.reverse := by
  rw [decodeUnits]
  rfl

theorem decodeUnits_of_decodeUnit? {read : List Nat} {bytes rest : Bytes} {u : Nat}
    (h : decodeUnit? bytes = some (u, rest)) :
    decodeUnits read bytes = decodeUnits (u :: read) rest := by
  have hne : bytes.isEmpty = false := by
    cases bytes with
    | nil => cases h
    | cons b tail => rfl
  rw [decodeUnits, hne, if_neg Bool.false_ne_true]
  split
  · next hnone =>
    rw [h] at hnone
    cases hnone
  · next v tail hsome =>
    obtain ⟨rfl, rfl⟩ := Prod.mk.inj (Option.some.inj (h.symm.trans hsome))
    rfl

/-- Groups one after the other are read as their units. -/
theorem decodeUnits_of_spells : ∀ {units read : List Nat} {groups : List Bytes},
    List.Forall₂ Spells units groups →
      decodeUnits read groups.flatten = some (read.reverse ++ units)
  | _, read, _, .nil => by rw [List.flatten_nil, decodeUnits_nil, List.append_nil]
  | _, read, _, .cons hgroup hgroups => by
    rw [List.flatten_cons, decodeUnits_of_decodeUnit? (hgroup.decodeUnit?_append _),
      decodeUnits_of_spells hgroups, List.reverse_cons, List.append_assoc, List.singleton_append]

/-- Bytes that are read as units are groups for them. -/
theorem exists_spells {read units : List Nat} {bytes : Bytes}
    (h : decodeUnits read bytes = some units) :
    ∃ more groups, units = read.reverse ++ more ∧ List.Forall₂ Spells more groups ∧
      bytes = groups.flatten := by
  cases hbytes : bytes with
  | nil =>
    rw [hbytes, decodeUnits_nil] at h
    exact ⟨[], [], by simpa using (Option.some.inj h).symm, .nil, rfl⟩
  | cons b tail =>
    cases hunit : decodeUnit? bytes with
    | none =>
      rw [decodeUnits, hbytes, List.isEmpty_cons, if_neg Bool.false_ne_true] at h
      split at h
      · cases h
      · next hsome =>
        rw [← hbytes, hunit] at hsome
        cases hsome
    | some pair =>
      obtain ⟨u, rest⟩ := pair
      have hlt := decodeUnit?_length hunit
      obtain ⟨group, hgroup, heq⟩ := decodeUnit?_eq_some_iff.mp hunit
      rw [decodeUnits_of_decodeUnit? hunit] at h
      obtain ⟨more, groups, rfl, hgroups, rfl⟩ := exists_spells h
      exact ⟨u :: more, group :: groups, by simp, .cons hgroup hgroups, hbytes ▸ heq⟩
termination_by bytes.length

/-! ## Groups that are too long -/

/-- Two bytes with which a group begins that is longer than its unit needs. -/
def BeginsLong (x y : UInt8) : Prop :=
  x.toNat = 0xC0 ∧ y.toNat ≠ 0x80 ∨ x.toNat = 0xC1 ∨ x.toNat = 0xE0 ∧ y.toNat < 0xA0

/-- Somewhere in the bytes two neighbours look like the beginning of a group that is too long. -/
def HasLongGroup (bytes : Bytes) : Prop :=
  ∃ x y, [x, y] <:+: bytes ∧ BeginsLong x y

/-- All groups that are too long begin with one of three bytes. -/
theorem BeginsLong.le {x y : UInt8} (h : BeginsLong x y) : 0xC0 ≤ x.toNat := by
  unfold BeginsLong at h
  omega

theorem not_hasLongGroup_nil : ¬HasLongGroup [] := by
  rintro ⟨x, y, hinfix, -⟩
  cases List.infix_nil.mp hinfix

/-- A byte below these three can be left out. -/
theorem hasLongGroup_cons_iff {b : UInt8} {rest : Bytes} (hb : b.toNat < 0xC0) :
    HasLongGroup (b :: rest) ↔ HasLongGroup rest := by
  constructor
  · rintro ⟨x, y, hinfix, hlong⟩
    rcases List.infix_cons_iff.mp hinfix with hprefix | hinfix
    · obtain ⟨rfl, -⟩ := List.cons_prefix_cons.mp hprefix
      have := hlong.le
      omega
    · exact ⟨x, y, hinfix, hlong⟩
  · rintro ⟨x, y, hinfix, hlong⟩
    exact ⟨x, y, List.infix_cons_iff.mpr (.inr hinfix), hlong⟩

theorem hasLongGroup_cons_cons_iff {a b : UInt8} {rest : Bytes} :
    HasLongGroup (a :: b :: rest) ↔ BeginsLong a b ∨ HasLongGroup (b :: rest) := by
  constructor
  · rintro ⟨x, y, hinfix, hlong⟩
    rcases List.infix_cons_iff.mp hinfix with hprefix | hinfix
    · obtain ⟨rfl, hsecond⟩ := List.cons_prefix_cons.mp hprefix
      obtain ⟨rfl, -⟩ := List.cons_prefix_cons.mp hsecond
      exact .inl hlong
    · exact .inr ⟨x, y, hinfix, hlong⟩
  · rintro (hlong | ⟨x, y, hinfix, hlong⟩)
    · exact ⟨a, b, ⟨[], rest, rfl⟩, hlong⟩
    · exact ⟨x, y, List.infix_cons_iff.mpr (.inr hinfix), hlong⟩

/-- A group is too long exactly if its first two bytes say so, and it hides nothing of what comes
after it. -/
theorem Spells.hasLongGroup_append_iff {u : Nat} {group : Bytes} (h : Spells u group)
    (rest : Bytes) : HasLongGroup (group ++ rest) ↔
      unitLength u < group.length ∨ HasLongGroup rest := by
  cases h with
  | one hpos hle =>
    have hb : (UInt8.ofNat u).toNat = u := UInt8.toNat_ofNat_of_lt' (show _ < 256 by omega)
    rw [List.singleton_append, hasLongGroup_cons_iff (by omega), unitLength, if_pos ⟨hpos, hle⟩]
    simp
  | two hle =>
    have hhigh : (UInt8.ofNat (0xC0 + u / 64)).toNat = 0xC0 + u / 64 :=
      UInt8.toNat_ofNat_of_lt' (show _ < 256 by omega)
    have hlow : (UInt8.ofNat (0x80 + u % 64)).toNat = 0x80 + u % 64 :=
      UInt8.toNat_ofNat_of_lt' (show _ < 256 by omega)
    rw [List.cons_append, List.singleton_append, hasLongGroup_cons_cons_iff,
      hasLongGroup_cons_iff (by omega), BeginsLong, hhigh, hlow, unitLength]
    refine or_congr_left ?_
    show _ ↔ _ < 2
    rw [if_pos hle]
    split <;> omega
  | three hle =>
    have hhigh : (UInt8.ofNat (0xE0 + u / 4096)).toNat = 0xE0 + u / 4096 :=
      UInt8.toNat_ofNat_of_lt' (show _ < 256 by omega)
    have hmid : (UInt8.ofNat (0x80 + u / 64 % 64)).toNat = 0x80 + u / 64 % 64 :=
      UInt8.toNat_ofNat_of_lt' (show _ < 256 by omega)
    have hlow : (UInt8.ofNat (0x80 + u % 64)).toNat = 0x80 + u % 64 :=
      UInt8.toNat_ofNat_of_lt' (show _ < 256 by omega)
    rw [List.cons_append, List.cons_append, List.singleton_append, hasLongGroup_cons_cons_iff,
      hasLongGroup_cons_iff (by omega), hasLongGroup_cons_iff (by omega), BeginsLong, hhigh, hmid,
      unitLength]
    refine or_congr_left ?_
    show _ ↔ _ < 3
    split
    · omega
    split <;> omega

/-- A group of the length of the encoding is the encoding. -/
theorem Spells.eq_encodeUnit {u : Nat} {group : Bytes} (h : Spells u group)
    (hle : group.length ≤ unitLength u) : group = encodeUnit u := by
  unfold unitLength at hle
  unfold encodeUnit
  cases h with
  | one hpos hsmall => rw [if_pos ⟨hpos, hsmall⟩]
  | two hsmall =>
    rw [List.length_cons, List.length_singleton] at hle
    split at hle
    · omega
    · next hone => rw [if_neg hone, if_pos hsmall]
  | three hsmall =>
    rw [List.length_cons, List.length_cons, List.length_singleton] at hle
    split at hle
    · omega
    split at hle
    · omega
    · next hone htwo => rw [if_neg hone, if_neg htwo]

/-- Groups are the encodings of their units, or they are longer in all. -/
theorem flatMap_encodeUnit_of_spells : ∀ {units : List Nat} {groups : List Bytes},
    List.Forall₂ Spells units groups →
      (¬HasLongGroup groups.flatten → units.flatMap encodeUnit = groups.flatten) ∧
      (HasLongGroup groups.flatten →
        (units.flatMap encodeUnit).length < groups.flatten.length) ∧
      (units.flatMap encodeUnit).length ≤ groups.flatten.length
  | _, _, .nil => ⟨fun _ => rfl, fun h => absurd h not_hasLongGroup_nil, Nat.le_refl _⟩
  | u :: units, group :: groups, .cons hgroup hgroups => by
    obtain ⟨hexact, hlonger, hle⟩ := flatMap_encodeUnit_of_spells hgroups
    have hunit := hgroup.unitLength_le
    rw [List.flatten_cons, hgroup.hasLongGroup_append_iff, List.flatMap_cons, List.length_append,
      List.length_append, length_encodeUnit]
    refine ⟨fun hnot => ?_, ?_, by omega⟩
    · obtain ⟨hshort, hrest⟩ := not_or.mp hnot
      rw [hexact hrest, hgroup.eq_encodeUnit (Nat.not_lt.mp hshort)]
    · rintro (hlong | hlong)
      · omega
      · have := hlonger hlong
        omega

/-! ## Units and characters -/

theorem toNat_ofNat {n : Nat} (h : n.isValidChar) : (Char.ofNat n).toNat = n := by
  rw [Char.ofNat, dif_pos h]
  rfl

theorem unitsOf_ofNat {n : Nat} (h : n.isValidChar) (hlt : n < 65536) :
    unitsOf (Char.ofNat n) = [n] := by
  rw [unitsOf, toNat_ofNat h]
  exact if_pos hlt

theorem unitsOf_ofNat_pair {n : Nat} (h : n.isValidChar) (hle : 65536 ≤ n) :
    unitsOf (Char.ofNat n) = [0xD800 + (n - 65536) / 1024, 0xDC00 + (n - 65536) % 1024] := by
  rw [unitsOf, toNat_ofNat h]
  exact if_neg (Nat.not_lt.mpr hle)

theorem lt_of_mem_unitsOf {c : Char} {u : Nat} (h : u ∈ unitsOf c) : u < 65536 := by
  have hvalid : c.toNat.isValidChar := c.valid
  unfold unitsOf at h
  dsimp only at h
  split at h
  · have := List.mem_singleton.mp h
    omega
  · rcases List.mem_cons.mp h with rfl | h
    · rcases hvalid with hv | hv <;> omega
    · have := List.mem_singleton.mp h
      omega

theorem charsOfUnits_cons {read : List Char} {u : Nat} (h : ¬(0xD800 ≤ u ∧ u ≤ 0xDFFF)) :
    ∀ rest, charsOfUnits read (u :: rest) = charsOfUnits (Char.ofNat u :: read) rest
  | [] => by
    simp only [charsOfUnits]
    rw [if_neg h]
  | l :: rest => by
    rw [charsOfUnits, if_neg (by omega), if_neg (by omega)]

theorem charsOfUnits_unitsOf : ∀ {chars read : List Char},
    charsOfUnits read (chars.flatMap unitsOf) = some (read.reverse ++ chars)
  | [], read => by rw [List.flatMap_nil, charsOfUnits, List.append_nil]
  | c :: chars, read => by
    have hvalid : c.toNat.isValidChar := c.valid
    have ih : charsOfUnits (c :: read) (chars.flatMap unitsOf) =
        some (read.reverse ++ c :: chars) := by
      rw [charsOfUnits_unitsOf, List.reverse_cons, List.append_assoc, List.singleton_append]
    rw [List.flatMap_cons, unitsOf]
    split
    · have hnot : ¬(0xD800 ≤ c.toNat ∧ c.toNat ≤ 0xDFFF) := by
        rcases hvalid with hv | hv <;> omega
      rw [List.singleton_append, charsOfUnits_cons hnot, Char.ofNat_toNat]
      exact ih
    · have hle : c.toNat < 0x110000 := by rcases hvalid with hv | hv <;> omega
      rw [List.cons_append, List.singleton_append, charsOfUnits, if_pos (by omega),
        if_pos (by omega), show 0x10000 + (0xD800 + (c.toNat - 0x10000) / 0x400 - 0xD800) * 0x400 +
          (0xDC00 + (c.toNat - 0x10000) % 0x400 - 0xDC00) = c.toNat by omega, Char.ofNat_toNat]
      exact ih

/-- Characters that units spell have these units. -/
theorem unitsOf_charsOfUnits : ∀ {units : List Nat} {read chars : List Char},
    (∀ u ∈ units, u < 65536) → charsOfUnits read units = some chars →
      ∃ more, chars = read.reverse ++ more ∧ more.flatMap unitsOf = units
  | [], read, chars, _, h => by
    rw [charsOfUnits] at h
    exact ⟨[], by simpa using (Option.some.inj h).symm, rfl⟩
  | u :: rest, read, chars, hunits, h => by
    obtain ⟨hu, hrest⟩ := List.forall_mem_cons.mp hunits
    by_cases hsurrogate : 0xD800 ≤ u ∧ u ≤ 0xDFFF
    · match rest, hrest, h with
      | [], _, h =>
        rw [charsOfUnits, if_pos hsurrogate] at h
        cases h
      | l :: rest, hrest, h =>
        rw [charsOfUnits] at h
        split at h
        · split at h
          · next hhigh hlow =>
            obtain ⟨more, rfl, hmore⟩ :=
              unitsOf_charsOfUnits (List.forall_mem_cons.mp hrest).2 h
            refine ⟨_ :: more, by rw [List.reverse_cons, List.append_assoc]; rfl, ?_⟩
            rw [List.flatMap_cons, hmore, unitsOf_ofNat_pair (.inr (by omega)) (by omega)]
            simp only [List.cons_append, List.nil_append, List.cons.injEq, and_true]
            omega
          · cases h
        · next hhigh =>
          rw [if_pos (by omega)] at h
          cases h
    · rw [charsOfUnits_cons hsurrogate] at h
      obtain ⟨more, rfl, hmore⟩ := unitsOf_charsOfUnits hrest h
      refine ⟨_ :: more, by rw [List.reverse_cons, List.append_assoc]; rfl, ?_⟩
      have hvalid : u.isValidChar := by
        by_cases hlt : u < 0xD800
        · exact .inl hlt
        · exact .inr (by omega)
      rw [List.flatMap_cons, hmore, unitsOf_ofNat hvalid hu]
      rfl

/-! ## Texts -/

def units (text : String) : List Nat :=
  text.toList.flatMap unitsOf

theorem lt_of_mem_units {text : String} {u : Nat} (hu : u ∈ units text) : u < 65536 := by
  obtain ⟨c, -, hc⟩ := List.mem_flatMap.mp hu
  exact lt_of_mem_unitsOf hc

theorem encode_eq (text : String) : encode text = (units text).flatMap encodeUnit := by
  rw [encode, units, List.flatMap_assoc]
  rfl

/-- Bytes are decoded to a text if they are groups for its units, and only then. -/
theorem decode?_eq_some_iff {bytes : Bytes} {text : String} :
    decode? bytes = some text ↔
      ∃ groups, List.Forall₂ Spells (units text) groups ∧ bytes = groups.flatten := by
  constructor
  · intro h
    obtain ⟨_, hunits, h⟩ := Option.bind_eq_some_iff.mp h
    obtain ⟨chars, hchars, h⟩ := Option.bind_eq_some_iff.mp h
    cases h
    obtain ⟨more, groups, heq, hgroups, rfl⟩ := exists_spells hunits
    rw [heq, List.reverse_nil, List.nil_append] at hchars
    have hlt : ∀ u ∈ more, u < 65536 := by
      intro u hu
      obtain ⟨group, hgroup⟩ := Success.exists_of_mem_right hgroups.flip u hu
      exact hgroup.lt
    obtain ⟨spelled, rfl, rfl⟩ := unitsOf_charsOfUnits hlt hchars
    exact ⟨groups, by rwa [ModifiedUtf8.units, String.toList_ofList], rfl⟩
  · rintro ⟨groups, hgroups, rfl⟩
    rw [decode?, decodeUnits_of_spells hgroups]
    simp [units, charsOfUnits_unitsOf]

theorem spells_encode (text : String) :
    List.Forall₂ Spells (units text) ((units text).map encodeUnit) :=
  List.forall₂_map_right_iff.mpr
    (List.forall₂_same.mpr fun _ hu => spells_encodeUnit (lt_of_mem_units hu))

/-- What was encoded is decoded to the same text. -/
theorem decode?_encode (text : String) : decode? (encode text) = some text :=
  decode?_eq_some_iff.mpr ⟨_, spells_encode text, by rw [encode_eq, List.flatMap_def]⟩

/-- Encoding a decoded text takes no more bytes than there were. -/
theorem length_encode_le {bytes : Bytes} {text : String} (h : decode? bytes = some text) :
    (encode text).length ≤ bytes.length := by
  obtain ⟨groups, hgroups, rfl⟩ := decode?_eq_some_iff.mp h
  rw [encode_eq]
  exact (flatMap_encodeUnit_of_spells hgroups).2.2

/-- Encoding a decoded text takes fewer bytes than there were if a group was too long. -/
theorem length_encode_lt {bytes : Bytes} {text : String} (h : decode? bytes = some text)
    (hlong : HasLongGroup bytes) : (encode text).length < bytes.length := by
  obtain ⟨groups, hgroups, rfl⟩ := decode?_eq_some_iff.mp h
  rw [encode_eq]
  exact (flatMap_encodeUnit_of_spells hgroups).2.1 hlong

/-- A decoded text is encoded to the bytes there were if no group was too long. -/
theorem encode_eq_iff {bytes : Bytes} {text : String} (h : decode? bytes = some text) :
    encode text = bytes ↔ ¬HasLongGroup bytes := by
  constructor
  · rintro rfl hlong
    exact Nat.lt_irrefl _ (length_encode_lt h hlong)
  · intro hnot
    obtain ⟨groups, hgroups, rfl⟩ := decode?_eq_some_iff.mp h
    rw [encode_eq]
    exact (flatMap_encodeUnit_of_spells hgroups).1 hnot

theorem encode_injective : Function.Injective encode := fun first second h =>
  Option.some.inj (by rw [← decode?_encode first, h, decode?_encode second])

theorem encodedLength_eq (text : String) : encodedLength text = (encode text).length := by
  have hsum : ∀ (units : List Nat) (n : Nat),
      units.foldl (fun n u => n + unitLength u) n = n + (units.flatMap encodeUnit).length := by
    intro units
    induction units with
    | nil => intro n; rfl
    | cons u units ih =>
      intro n
      rw [List.foldl_cons, ih, List.flatMap_cons, List.length_append, length_encodeUnit,
        Nat.add_assoc]
  rw [encode_eq, encodedLength, units, hsum, Nat.zero_add]

/-- A text is decoded from bytes that are neither zero nor begin a group of four. -/
theorem ne_zero_of_mem_decode? {bytes : Bytes} {text : String} (h : decode? bytes = some text) :
    ∀ b ∈ bytes, b ≠ 0 ∧ b.toNat < 0xF0 := by
  obtain ⟨groups, hgroups, rfl⟩ := decode?_eq_some_iff.mp h
  intro b hb
  obtain ⟨group, hmem, hb⟩ := List.mem_flatten.mp hb
  obtain ⟨u, hgroup⟩ := Success.exists_of_mem_right hgroups group hmem
  exact hgroup.ne_zero_of_mem hb

end ClassText.ModifiedUtf8
