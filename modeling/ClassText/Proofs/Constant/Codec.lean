import ClassText.Constant.Codec
import ClassText.Proofs.Bytes.Takes
import ClassText.Proofs.Text.ModifiedUtf8

/-!
# Constants are read as they are written

A number or a reference is written to the very bytes it was read from. A text
need not be: some bytes spell a text in more than one way, and it is written in
the shortest one. So what was read can always be written, and what is written is
read again, provided that bytes which are kept do not spell a text.
-/

namespace ClassText.Constant

open ByteReader

variable {used bytes : Bytes} {c : Constant}

/-- Bytes that are kept in place of a text spell none. -/
def IsNormal : Constant → Prop
  | undecodable bytes => ModifiedUtf8.decode? bytes = none
  | _ => True

/-! ## Parts of constants -/

theorem takes_pair {α : Type} {f : PoolIndex → PoolIndex → α} {a : α} :
    (do return f (← word16) (← word16)).Takes used a ↔
      ∃ i j, used = Bytes.word16 i ++ Bytes.word16 j ∧ f i j = a := by
  rw [takes_bind]
  constructor
  · rintro ⟨first, second, i, rfl, hi, hrest⟩
    obtain ⟨j, hj, rfl⟩ := takes_map.mp hrest
    exact ⟨i, j, by rw [takes_word16.mp hi, takes_word16.mp hj], rfl⟩
  · rintro ⟨i, j, rfl, rfl⟩
    exact ⟨_, _, i, rfl, takes_word16.mpr rfl, takes_map.mpr ⟨j, takes_word16.mpr rfl, rfl⟩⟩

theorem code_of_ofCode? {code : UInt8} {kind : HandleKind}
    (h : HandleKind.ofCode? code = some kind) : kind.code = code := by
  have hfound := List.find?_some h
  exact eq_of_beq hfound

theorem takes_handleKind {kind : HandleKind} :
    handleKind.Takes used kind ↔ used = [kind.code] := by
  rw [handleKind, takes_bind]
  constructor
  · rintro ⟨first, second, code, rfl, hcode, hrest⟩
    split at hrest
    · next found hfound =>
      obtain ⟨rfl, rfl⟩ := takes_pure.mp hrest
      rw [takes_byte.mp hcode, code_of_ofCode? hfound, List.append_nil]
    · exact (takes_fail hrest).elim
  · rintro rfl
    refine ⟨_, [], kind.code, (List.append_nil _).symm, takes_byte.mpr rfl, ?_⟩
    rw [HandleKind.ofCode?_code]
    exact takes_pure.mpr ⟨rfl, rfl⟩

theorem takes_methodHandle :
    (do return methodHandle (← handleKind) (← word16)).Takes used c ↔
      ∃ kind member, used = kind.code :: Bytes.word16 member ∧ methodHandle kind member = c := by
  rw [takes_bind]
  constructor
  · rintro ⟨first, second, kind, rfl, hkind, hrest⟩
    obtain ⟨member, hmember, rfl⟩ := takes_map.mp hrest
    exact ⟨kind, member, by rw [takes_handleKind.mp hkind, takes_word16.mp hmember]; rfl, rfl⟩
  · rintro ⟨kind, member, rfl, rfl⟩
    exact ⟨[kind.code], _, kind, rfl, takes_handleKind.mpr rfl,
      takes_map.mpr ⟨member, takes_word16.mpr rfl, rfl⟩⟩

/-- A text goes with its length. -/
theorem takes_text :
    (do return ofText (← take (← word16).toNat)).Takes used c ↔
      ∃ bytes, bytes.length ≤ 65535 ∧ used = Bytes.word16 (.ofNat bytes.length) ++ bytes ∧
        ofText bytes = c := by
  rw [takes_bind]
  constructor
  · rintro ⟨first, second, length, rfl, hlength, hrest⟩
    obtain ⟨bytes, htake, rfl⟩ := takes_map.mp hrest
    obtain ⟨rfl, hlen⟩ := takes_take.mp htake
    have hlt := length.toNat_lt
    refine ⟨second, by omega, ?_, rfl⟩
    rw [takes_word16.mp hlength, hlen, UInt16.ofNat_toNat]
  · rintro ⟨bytes, hle, rfl, rfl⟩
    refine ⟨_, _, _, rfl, takes_word16.mpr rfl,
      takes_map.mpr ⟨bytes, takes_take.mpr ⟨rfl, ?_⟩, rfl⟩⟩
    rw [UInt16.toNat_ofNat']
    omega

/-! ## Texts -/

theorem writeText_eq_ok_iff {text : Bytes} :
    writeText text = .ok bytes ↔
      text.length ≤ 65535 ∧ bytes = Bytes.word16 (.ofNat text.length) ++ text := by
  rw [writeText, Success.check_eq_ok, Nat.not_lt, Except.ok.injEq, eq_comm (b := bytes)]

theorem isNormal_ofText (text : Bytes) : (ofText text).IsNormal := by
  unfold ofText
  split
  · trivial
  · assumption

/-- A text that was read takes no more room when it is written. -/
theorem writeBody_ofText {text : Bytes} (hle : text.length ≤ 65535) :
    ∃ body, (ofText text).writeBody = .ok body := by
  unfold ofText
  split
  · next s hs =>
    have hlen := ModifiedUtf8.length_encode_le hs
    exact ⟨_, writeText_eq_ok_iff.mpr ⟨Nat.le_trans hlen hle, rfl⟩⟩
  · exact ⟨_, writeText_eq_ok_iff.mpr ⟨hle, rfl⟩⟩

/-! ## Constants -/

/-- What can be read can be written. -/
theorem writeBody_of_takes {tag : UInt8} (h : (readBody tag).Takes used c) :
    c.IsNormal ∧ ∃ body, c.writeBody = .ok body := by
  unfold readBody at h
  split at h
  case h_1 =>
    obtain ⟨text, hle, -, rfl⟩ := takes_text.mp h
    exact ⟨isNormal_ofText text, writeBody_ofText hle⟩
  case h_12 =>
    obtain ⟨kind, member, -, rfl⟩ := takes_methodHandle.mp h
    exact ⟨trivial, _, rfl⟩
  case h_8 | h_9 | h_10 | h_11 | h_14 | h_15 =>
    obtain ⟨i, j, -, rfl⟩ := takes_pair.mp h
    exact ⟨trivial, _, rfl⟩
  case h_18 => exact (takes_fail h).elim
  all_goals
    obtain ⟨value, -, rfl⟩ := takes_map.mp h
    exact ⟨trivial, _, rfl⟩

/-- What is written is read again. -/
theorem takes_of_writeBody (hnormal : c.IsNormal) (h : c.writeBody = .ok bytes) :
    (readBody c.tag).Takes bytes c := by
  cases c with
  | utf8 text =>
    obtain ⟨hle, rfl⟩ := writeText_eq_ok_iff.mp h
    refine takes_text.mpr ⟨_, hle, rfl, ?_⟩
    rw [ofText, ModifiedUtf8.decode?_encode]
  | undecodable text =>
    obtain ⟨hle, rfl⟩ := writeText_eq_ok_iff.mp h
    refine takes_text.mpr ⟨_, hle, rfl, ?_⟩
    rw [ofText, show ModifiedUtf8.decode? text = none from hnormal]
  | integer value => exact Except.ok.inj h ▸ takes_map.mpr ⟨value, takes_int32.mpr rfl, rfl⟩
  | float bits => exact Except.ok.inj h ▸ takes_map.mpr ⟨bits, takes_word32.mpr rfl, rfl⟩
  | long value => exact Except.ok.inj h ▸ takes_map.mpr ⟨value, takes_int64.mpr rfl, rfl⟩
  | double bits => exact Except.ok.inj h ▸ takes_map.mpr ⟨bits, takes_word64.mpr rfl, rfl⟩
  | classRef i | string i | methodType i | moduleRef i | packageRef i =>
    exact Except.ok.inj h ▸ takes_map.mpr ⟨i, takes_word16.mpr rfl, rfl⟩
  | field i j | nameAndType i j | dynamic i j | invokeDynamic i j =>
    exact Except.ok.inj h ▸ takes_pair.mpr ⟨i, j, rfl, rfl⟩
  | method i j ofInterface =>
    cases ofInterface <;> exact Except.ok.inj h ▸ takes_pair.mpr ⟨i, j, rfl, rfl⟩
  | methodHandle kind member =>
    exact Except.ok.inj h ▸ takes_methodHandle.mpr ⟨kind, member, rfl, rfl⟩

theorem write_eq_ok_iff :
    c.write = .ok bytes ↔ ∃ body, c.writeBody = .ok body ∧ bytes = c.tag :: body := by
  rw [write, Success.bind_eq_ok]
  constructor
  · rintro ⟨body, hbody, h⟩
    exact ⟨body, hbody, (Except.ok.inj h).symm⟩
  · rintro ⟨body, hbody, rfl⟩
    exact ⟨body, hbody, rfl⟩

theorem write_utf8 {text : String} (hle : (ModifiedUtf8.encode text).length ≤ 65535) :
    (utf8 text).write = .ok (1 :: (Bytes.word16 (.ofNat (ModifiedUtf8.encode text).length) ++
      ModifiedUtf8.encode text)) :=
  write_eq_ok_iff.mpr ⟨_, writeText_eq_ok_iff.mpr ⟨hle, rfl⟩, rfl⟩

theorem write_undecodable {text : Bytes} (hle : text.length ≤ 65535) :
    (undecodable text).write = .ok (1 :: (Bytes.word16 (.ofNat text.length) ++ text)) :=
  write_eq_ok_iff.mpr ⟨_, writeText_eq_ok_iff.mpr ⟨hle, rfl⟩, rfl⟩

/-- A constant that was read can be written. -/
theorem write_of_takes (h : read.Takes used c) : c.IsNormal ∧ ∃ bytes, c.write = .ok bytes := by
  obtain ⟨_, _, tag, -, -, hbody⟩ := takes_bind.mp h
  obtain ⟨hnormal, body, hwrite⟩ := writeBody_of_takes hbody
  exact ⟨hnormal, _, write_eq_ok_iff.mpr ⟨body, hwrite, rfl⟩⟩

/-- A constant that was written is read again. -/
theorem takes_of_write (hnormal : c.IsNormal) (h : c.write = .ok bytes) : read.Takes bytes c := by
  obtain ⟨body, hbody, rfl⟩ := write_eq_ok_iff.mp h
  exact Takes.bind (takes_byte.mpr rfl) (takes_of_writeBody hnormal hbody)

end ClassText.Constant
