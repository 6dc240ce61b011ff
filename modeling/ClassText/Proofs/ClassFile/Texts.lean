import ClassText.Proofs.ClassFile.Spelling

/-!
# Texts that are spelled with too many bytes

Bytes that do not spell a text are kept, and written as they were. Bytes that do
are replaced by the text, and written as its encoding, so that they change if
one of their groups is longer than needed, and only then. In a class no other
bytes of constants change: a constant is written to the bytes it was read from,
unless it is such a text (`ModifiedUtf8.decode?_exact`).
-/

namespace ClassText

open ByteReader Bytes

variable {used bytes : Bytes} {c : Constant}

namespace Constant

/-- The bytes of a constant hold a text with a group that is too long. -/
def IsLong (bytes : Bytes) : Prop :=
  ∃ text, spelledText? bytes = some text ∧ (ModifiedUtf8.decode? text).isSome = true ∧
    ModifiedUtf8.HasLongGroup text

/-- What a constant keeps of the bytes it was read from. -/
structure Keeps (c : Constant) (bytes : Bytes) : Prop where
  decoded : ∀ text s, spelledText? bytes = some text → ModifiedUtf8.decode? text = some s →
    c = utf8 s
  raw : ∀ text, spelledText? bytes = some text → ModifiedUtf8.decode? text = none →
    c = undecodable text
  write : ∃ again, c.write = .ok again ∧ (again = bytes ↔ ¬IsLong bytes)

theorem spelledText?_text (text : Bytes) :
    spelledText? (1 :: (word16 (.ofNat text.length) ++ text)) = some text :=
  rfl

theorem spelledText?_of_ne {tag : UInt8} (h : tag ≠ 1) (body : Bytes) :
    spelledText? (tag :: body) = none := by
  unfold spelledText?
  split
  · next heq => exact absurd (List.cons.inj heq).1 h
  · rfl

theorem isLong_iff {text : Bytes} (h : spelledText? bytes = some text) :
    IsLong bytes ↔ (ModifiedUtf8.decode? text).isSome = true ∧ ModifiedUtf8.HasLongGroup text := by
  constructor
  · rintro ⟨other, hother, hlong⟩
    obtain rfl := Option.some.inj (h.symm.trans hother)
    exact hlong
  · exact fun hlong => ⟨text, h, hlong⟩

theorem keeps_of_spelledText? {text : Bytes} (h : spelledText? bytes = some text)
    (hdecoded : ∀ s, ModifiedUtf8.decode? text = some s → c = utf8 s)
    (hraw : ModifiedUtf8.decode? text = none → c = undecodable text)
    (hwrite : ∃ again, c.write = .ok again ∧ (again = bytes ↔ ¬IsLong bytes)) :
    c.Keeps bytes where
  decoded other s hother hs := by
    obtain rfl := Option.some.inj (h.symm.trans hother)
    exact hdecoded s hs
  raw other hother hnone := by
    obtain rfl := Option.some.inj (h.symm.trans hother)
    exact hraw hnone
  write := hwrite

/-- A text is written to its bytes, or to the encoding of what they spell. -/
theorem keeps_ofText {text : Bytes} (hle : text.length ≤ 65535) :
    (ofText text).Keeps (1 :: (word16 (.ofNat text.length) ++ text)) := by
  have hspelled := spelledText?_text text
  cases hdecode : ModifiedUtf8.decode? text with
  | none =>
    have hc : ofText text = undecodable text := by rw [ofText, hdecode]
    rw [hc]
    refine keeps_of_spelledText? hspelled (fun s hs => ?_) (fun _ => rfl)
      ⟨_, write_undecodable hle, ?_⟩
    · cases hdecode.symm.trans hs
    · rw [isLong_iff hspelled, hdecode]
      simp
  | some s =>
    have hc : ofText text = utf8 s := by rw [ofText, hdecode]
    have hshort := Nat.le_trans (ModifiedUtf8.length_encode_le hdecode) hle
    rw [hc]
    refine keeps_of_spelledText? hspelled (fun t ht => ?_) (fun hnone => ?_)
      ⟨_, write_utf8 hshort, ?_⟩
    · rw [Option.some.inj (hdecode.symm.trans ht)]
    · cases hdecode.symm.trans hnone
    · rw [isLong_iff hspelled, hdecode, Option.isSome_some, eq_self, true_and,
        ← ModifiedUtf8.encode_eq_iff hdecode]
      constructor
      · intro heq
        -- three bytes stand in front of a text, whatever it is
        exact congrArg (List.drop 3) heq
      · rintro rfl
        rfl

theorem keeps_of_takes (h : read.Takes used c) : c.Keeps used := by
  obtain ⟨_, body, tag, rfl, htag, hbody⟩ := takes_bind.mp h
  obtain rfl := takes_byte.mp htag
  rw [List.singleton_append]
  by_cases hone : tag = 1
  · subst hone
    obtain ⟨text, hle, rfl, rfl⟩ := takes_text.mp hbody
    exact keeps_ofText hle
  · have hnone := spelledText?_of_ne hone body
    have hshortest : IsShortest (tag :: body) := fun text htext => by
      cases hnone.symm.trans htext
    obtain ⟨rfl, hwrite⟩ := writeBody_eq_of_takes hbody hshortest
    refine ⟨fun text s htext => ?_, fun text htext => ?_,
      _, write_eq_ok_iff.mpr ⟨_, hwrite, rfl⟩, ?_⟩
    · cases hnone.symm.trans htext
    · cases hnone.symm.trans htext
    · refine iff_of_true rfl ?_
      rintro ⟨text, htext, -⟩
      cases hnone.symm.trans htext

end Constant

namespace ModifiedUtf8

/-- Bytes are decoded to a text exactly if they are groups for its units, one after the other; then
they are its encoding if no group is too long, and otherwise longer than that. Without such a group
nothing but encodings is decoded. In a class that was read, bytes that are not decoded are kept,
and every constant is written to its own bytes, unless these hold a text with a group that is
too long. -/
theorem decode?_exact (bytes : Bytes) :
    (∀ text, decode? bytes = some text ↔
      ∃ groups, List.Forall₂ Spells (units text) groups ∧ bytes = groups.flatten) ∧
    (∀ text, decode? bytes = some text → (encode text = bytes ↔ ¬HasLongGroup bytes) ∧
      (HasLongGroup bytes → (encode text).length < bytes.length)) ∧
    (¬HasLongGroup bytes → (∀ text, encode text ≠ bytes) → decode? bytes = none) ∧
    ∀ (file : Bytes) (c : ClassFile), ClassFile.ofBytes file = .ok c →
      ∃ s rest, (Spelling.read c.pool).run file = .ok (s, rest) ∧
        List.Forall₂ Constant.Keeps (c.pool.entries.map (·.2)) s.constants := by
  refine ⟨fun text => decode?_eq_some_iff,
    fun text h => ⟨encode_eq_iff h, length_encode_lt h⟩, fun hnot hother => ?_, fun file c h => ?_⟩
  · rw [Option.eq_none_iff_forall_ne_some]
    intro text htext
    exact hother text ((encode_eq_iff htext).mpr hnot)
  · obtain ⟨s, rest, hread, htakes, -⟩ := ClassFile.exists_spelling h
    exact ⟨s, rest, hread, htakes.flip.imp fun _ _ => Constant.keeps_of_takes⟩

/-- A class with two spellings of one text. -/
def longBytes : Bytes :=
  [202, 254, 186, 190, 0, 0, 0, 49, 0, 4, 1, 0, 1, 65, 7, 0, 1, 1, 0, 2, 193, 129, 0, 0, 0, 2,
    0, 0, 0, 0, 0, 0, 0, 0, 0, 0]

/-- What stands in these bytes. -/
def longClass : ClassFile where
  version := ⟨49, 0⟩
  pool := ⟨#[none, some (.utf8 "A"), some (.classRef 1), some (.utf8 "A")], by decide⟩
  flags := 0
  thisClass := 2
  superClass := none
  interfaces := []
  fields := []
  methods := []
  attributes := []

/-- Two bytes are decoded to a letter that is encoded as one, and a class that holds them is not
written as it was. -/
theorem decode?_longLetter :
    decode? [0xC1, 0x81] = some "A" ∧ encode "A" = [0x41] ∧
      ClassFile.ofBytes longBytes = .ok longClass ∧
      ∃ written, longClass.toBytes = .ok written ∧ written ≠ longBytes :=
  ⟨by decide +kernel, by decide +kernel, Success.toOption_eq_some.mp (by decide +kernel),
    longBytes.take 19 ++ 1 :: 65 :: longBytes.drop 22, by decide +kernel, by decide +kernel⟩

end ModifiedUtf8

end ClassText
