import ClassText.Proofs.Bytes.Diagnosis
import ClassText.Proofs.ClassFile.Codec

/-!
# Which bytes are refused, and why

Whether some bytes are no class file at all is told by how they begin
(`ofBytes_eq_notClassFile_iff`). Everything that is read behind that blames the bytes:
there is no other outcome than a class or malformed bytes (`ofBytes_outcomes`).

For most readers this follows from how they are put together. Only the pool has to
be looked at, since a constant is added to it while it is read, and a full pool is no
fault of the bytes; but the count, which has sixteen bits, is compared before a constant is
added, so there is always room (`diagnoses_readLoop`).

The same readers find nothing in bytes that are cut short. So class files are told
apart by their own bytes: what begins with a class file, or is the beginning of
one, is none (`ofBytes_delimited`).
-/

namespace ClassText

open ByteReader Success

namespace Instruction

theorem diagnoses_absolute (offset : Nat) (distance : Int) :
    (absolute offset distance).Diagnoses := by
  unfold absolute
  dsimp only
  split
  · exact diagnoses_malformed _
  · exact diagnoses_pure _

theorem diagnoses_readTarget (offset : Nat) : (readTarget offset).Diagnoses :=
  diagnoses_int32.bind fun _ => diagnoses_absolute _ _

theorem diagnoses_readTableSwitch (offset : Nat) : (readTableSwitch offset).Diagnoses := by
  refine (diagnoses_take _).bind fun _ => (diagnoses_readTarget _).bind fun _ =>
    diagnoses_int32.bind fun low => diagnoses_int32.bind fun high => ?_
  split
  · exact diagnoses_malformed _
  · exact ((diagnoses_readTarget _).times _).bind fun _ => diagnoses_pure _

theorem diagnoses_readLookupSwitch (offset : Nat) : (readLookupSwitch offset).Diagnoses := by
  refine (diagnoses_take _).bind fun _ => (diagnoses_readTarget _).bind fun _ =>
    diagnoses_int32.bind fun count => ?_
  split
  · exact diagnoses_malformed _
  · refine (Diagnoses.times ?_ _).bind fun _ => diagnoses_pure _
    exact diagnoses_int32.bind fun _ => (diagnoses_readTarget _).bind fun _ => diagnoses_pure _

theorem diagnoses_readWide (offset : Nat) : (readWide offset).Diagnoses := by
  refine diagnoses_byte.bind fun opcode => ?_
  split
  · exact diagnoses_word16.bind fun _ => diagnoses_int16.bind fun _ => diagnoses_pure _
  split
  · exact diagnoses_word16.bind fun _ => diagnoses_pure _
  · exact diagnoses_malformed _

theorem diagnoses_readSpecial (offset : Nat) (opcode : Opcode) :
    (readSpecial offset opcode).Diagnoses := by
  unfold readSpecial
  split
  · exact diagnoses_int8.bind fun _ => diagnoses_pure _
  · exact diagnoses_int16.bind fun _ => diagnoses_pure _
  · exact diagnoses_byte.bind fun _ => diagnoses_pure _
  · exact diagnoses_word16.bind fun _ => diagnoses_pure _
  · exact diagnoses_word16.bind fun _ => diagnoses_pure _
  · exact diagnoses_byte.bind fun _ => diagnoses_int8.bind fun _ => diagnoses_pure _
  · exact diagnoses_readWide offset
  · exact diagnoses_readTableSwitch offset
  · exact diagnoses_readLookupSwitch offset
  · exact diagnoses_word16.bind fun _ => diagnoses_byte.bind fun _ =>
      diagnoses_byte.bind fun _ => diagnoses_pure _
  · exact diagnoses_word16.bind fun _ => diagnoses_word16.bind fun _ => diagnoses_pure _
  · exact diagnoses_byte.bind fun _ => diagnoses_pure _
  · exact diagnoses_word16.bind fun _ => diagnoses_byte.bind fun _ => diagnoses_pure _
  · exact diagnoses_malformed _

theorem diagnoses_read (offset : Nat) : (read offset).Diagnoses := by
  refine diagnoses_byte.bind fun opcode => ?_
  unfold readOperands
  split
  · exact diagnoses_pure _
  split
  · exact diagnoses_byte.bind fun _ => diagnoses_pure _
  split
  · exact diagnoses_int16.bind fun _ => (diagnoses_absolute _ _).bind fun _ => diagnoses_pure _
  split
  · exact (diagnoses_readTarget _).bind fun _ => diagnoses_pure _
  split
  · exact diagnoses_word16.bind fun _ => diagnoses_pure _
  split
  · exact diagnoses_pure _
  · exact diagnoses_readSpecial _ _

/-- Targets are put in place unless one of them is refused. -/
theorem failsWith_mapTargets {ε : Type} {P : ε → Prop} {f : Label → Except ε Label}
    (h : ∀ l, FailsWith P (f l)) (insn : Instruction) : FailsWith P (insn.mapTargets f) := by
  cases insn with
  | branch opcode target => simp [mapTargets, h]
  | tableSwitch default low targets => simp [mapTargets, h, FailsWith.mapM fun l _ => h l]
  | lookupSwitch default pairs =>
    have hpairs : FailsWith P (pairs.mapM fun pair => return (pair.1, ← f pair.2)) :=
      FailsWith.mapM fun pair _ => by simp [h]
    simp only [mapTargets, failsWith_bind]
    exact ⟨h _, fun _ _ => ⟨hpairs, fun _ _ => failsWith_pure⟩⟩
  | _ => exact failsWith_ok

end Instruction

/-! ## Code -/

namespace Decoded

theorem failsWith_scan (total fuel : Nat) : ∀ (bytes : Bytes) (read : Decoded),
    FailsWith ClassError.IsMalformation (scan total fuel bytes read) := by
  induction fuel with
  | zero =>
    intro bytes read
    cases bytes <;> simp [scan]
  | succ fuel ih =>
    intro bytes read
    cases bytes with
    | nil => simp [scan]
    | cons b rest =>
      simp only [scan]
      split
      · next e hrun =>
        exact failsWith_error.mpr ((Instruction.diagnoses_read _).blames _ e hrun)
      · exact ih _ _

theorem failsWith_ofBytes (bytes : Bytes) :
    FailsWith ClassError.IsMalformation (ofBytes bytes) := by
  refine failsWith_bind.mpr ⟨failsWith_scan _ _ _ _, fun read _ => ?_⟩
  refine failsWith_bind.mpr ⟨FailsWith.mapM fun entry _ => ?_, fun _ _ => failsWith_pure⟩
  refine Instruction.failsWith_mapTargets (fun l => ?_) _
  split
  · exact failsWith_ok
  · exact failsWith_error.mpr ⟨_, rfl⟩

end Decoded

theorem ConstantPool.failsWith_text (pool : ConstantPool) (index : PoolIndex) :
    FailsWith ClassError.IsMalformation (pool.text index) := by
  unfold text
  split
  · exact failsWith_ok
  · exact failsWith_error.mpr ⟨_, rfl⟩
  · exact failsWith_error.mpr ⟨_, rfl⟩

theorem Attribute.diagnoses_read {β : Type} {body : PoolIndex → Bytes → Except ClassError β}
    (h : ∀ name bytes, FailsWith ClassError.IsMalformation (body name bytes)) :
    (Attribute.read body).Diagnoses :=
  diagnoses_word16.bind fun _ => diagnoses_word32.bind fun _ => (diagnoses_take _).bind fun _ =>
    (diagnoses_ofExcept (h _ _)).bind fun _ => diagnoses_pure _

namespace Handler

theorem diagnoses_label (found : Option Label) (offset : UInt16) :
    (label found offset).Diagnoses := by
  cases found with
  | none => exact diagnoses_malformed _
  | some l => exact diagnoses_pure l

theorem diagnoses_read (offsets : Array Nat) : (read offsets).Diagnoses :=
  (diagnoses_word16.bind fun _ => diagnoses_label _ _).bind fun _ =>
    (diagnoses_word16.bind fun _ => diagnoses_label _ _).bind fun _ =>
      (diagnoses_word16.bind fun _ => diagnoses_label _ _).bind fun _ =>
        diagnoses_word16.bind fun _ => diagnoses_pure _

end Handler

namespace Code

variable (pool : ConstantPool)

theorem diagnoses_read : (read pool).Diagnoses := by
  refine diagnoses_word16.bind fun _ => diagnoses_word16.bind fun _ =>
    diagnoses_word32.bind fun _ => ?_
  split
  · exact diagnoses_malformed _
  refine (diagnoses_take _).bind fun _ =>
    (diagnoses_ofExcept (Decoded.failsWith_ofBytes _)).bind fun decoded => ?_
  refine (Handler.diagnoses_read _).counted.bind fun _ => ?_
  refine (Attribute.diagnoses_read fun name bytes => ?_).counted.bind fun _ => diagnoses_pure _
  exact failsWith_bind.mpr ⟨pool.failsWith_text _, fun _ _ => failsWith_pure⟩

theorem failsWith_ofBytes (bytes : Bytes) :
    FailsWith ClassError.IsMalformation (ofBytes pool bytes) := by
  refine failsWith_bind.mpr ⟨(diagnoses_read pool).blames bytes, ?_⟩
  rintro ⟨code, rest⟩ -
  cases rest with
  | nil => exact failsWith_pure
  | cons b rest => exact failsWith_throw.mpr ⟨_, rfl⟩

end Code

/-! ## Constants -/

theorem Constant.diagnoses_read : read.Diagnoses := by
  refine diagnoses_byte.bind fun tag => ?_
  unfold readBody
  split
  case h_1 => exact diagnoses_word16.bind fun _ => (diagnoses_take _).bind fun _ => diagnoses_pure _
  case h_2 => exact diagnoses_int32.bind fun _ => diagnoses_pure _
  case h_3 => exact diagnoses_word32.bind fun _ => diagnoses_pure _
  case h_4 => exact diagnoses_int64.bind fun _ => diagnoses_pure _
  case h_5 => exact diagnoses_word64.bind fun _ => diagnoses_pure _
  case h_12 =>
    refine (diagnoses_byte.bind fun _ => ?_).bind fun _ =>
      diagnoses_word16.bind fun _ => diagnoses_pure _
    split
    · exact diagnoses_pure _
    · exact diagnoses_malformed _
  case h_18 => exact diagnoses_malformed _
  case h_8 | h_9 | h_10 | h_11 | h_14 | h_15 =>
    exact diagnoses_word16.bind fun _ => diagnoses_word16.bind fun _ => diagnoses_pure _
  all_goals exact diagnoses_word16.bind fun _ => diagnoses_pure _

namespace ConstantPool

theorem diagnoses_readLoop {count : Nat} (hcount : count ≤ 65535) :
    ∀ (fuel : Nat) (pool : ConstantPool), (readLoop count fuel pool).Diagnoses
  | 0, _ => diagnoses_pure _
  | fuel + 1, pool => by
    rw [readLoop]
    split
    · refine Constant.diagnoses_read.bind fun c => ?_
      split
      · exact diagnoses_malformed _
      · next hfits =>
        have hroom : pool.count + c.width ≤ 65535 := by omega
        rw [push_of_room hroom]
        exact diagnoses_readLoop hcount fuel _
    · exact diagnoses_pure _

theorem diagnoses_read : read.Diagnoses :=
  diagnoses_word16.bind fun count =>
    diagnoses_readLoop (Nat.le_of_lt_succ count.toNat_lt) _ _

end ConstantPool

/-! ## Class files -/

theorem Member.diagnoses_read {β : Type} {body : PoolIndex → Bytes → Except ClassError β}
    (h : ∀ name bytes, FailsWith ClassError.IsMalformation (body name bytes)) :
    (Member.read body).Diagnoses :=
  diagnoses_word16.bind fun _ => diagnoses_word16.bind fun _ => diagnoses_word16.bind fun _ =>
    (Attribute.diagnoses_read h).counted.bind fun _ => diagnoses_pure _

theorem MethodAttributeBody.failsWith_ofBytes (pool : ConstantPool) (name : PoolIndex)
    (bytes : Bytes) : FailsWith ClassError.IsMalformation (ofBytes pool name bytes) := by
  simp [ofBytes, pool.failsWith_text, Code.failsWith_ofBytes]

namespace ClassFile

variable {bytes : Bytes} {c : ClassFile}

theorem failsWith_checked (pool : ConstantPool) (place : ClassPlace) (index : PoolIndex) :
    FailsWith ClassError.IsMalformation (checked pool place index) := by
  unfold checked
  split
  · exact failsWith_ok
  · exact failsWith_error.mpr ⟨_, rfl⟩

theorem failsWith_checkedSuper (pool : ConstantPool) (index : PoolIndex) :
    FailsWith ClassError.IsMalformation (checkedSuper pool index) :=
  failsWith_ite.mpr ⟨fun _ => failsWith_ok,
    fun _ => failsWith_map.mpr (failsWith_checked pool _ index)⟩

theorem diagnoses_readBody : readBody.Diagnoses := by
  refine diagnoses_word16.bind fun _ => diagnoses_word16.bind fun _ =>
    ConstantPool.diagnoses_read.bind fun pool => diagnoses_word16.bind fun _ => ?_
  refine diagnoses_word16.bind fun _ => ?_
  refine (diagnoses_ofExcept (failsWith_checked pool _ _)).bind fun _ => ?_
  refine diagnoses_word16.bind fun _ => ?_
  refine (diagnoses_ofExcept (failsWith_checkedSuper pool _)).bind fun _ => ?_
  refine diagnoses_word16.counted.bind fun _ => ?_
  refine (diagnoses_ofExcept ?_).bind fun _ => ?_
  · exact FailsWith.mapM fun index _ => failsWith_checked pool _ index
  have hraw (name : PoolIndex) (bytes : Bytes) :
      FailsWith ClassError.IsMalformation (rawBody name bytes) := failsWith_ok
  exact (Member.diagnoses_read hraw).counted.bind fun _ =>
    (Member.diagnoses_read (MethodAttributeBody.failsWith_ofBytes pool)).counted.bind fun _ =>
      (Attribute.diagnoses_read hraw).counted.bind fun _ => diagnoses_pure _

/-- Behind the bytes with which every class file begins, there is a class or there are malformed
bytes. -/
theorem failsWith_ofBytes (body : Bytes) :
    FailsWith ClassError.IsMalformation (ofBytes (magic ++ body)) := by
  rw [ofBytes, if_pos (List.prefix_append _ _), List.drop_left]
  split
  · next e hrun => exact failsWith_error.mpr (diagnoses_readBody.blames body e hrun)
  · exact failsWith_ok
  · exact failsWith_error.mpr ⟨_, rfl⟩

/-- Bytes are no class file exactly if they do not begin like one. -/
theorem ofBytes_eq_notClassFile_iff {bytes : Bytes} :
    ofBytes bytes = .error .notClassFile ↔ ¬magic <+: bytes := by
  constructor
  · rintro h ⟨body, rfl⟩
    obtain ⟨cause, hcause⟩ := failsWith_ofBytes body _ h
    cases hcause
  · exact fun h => if_neg h

/-- Bytes are no class file exactly if they do not begin like one, and exactly all others hold a
class or are malformed. -/
theorem ofBytes_outcomes (bytes : Bytes) :
    (ofBytes bytes = .error .notClassFile ↔ ¬magic <+: bytes) ∧
      (magic <+: bytes ↔ (∃ c, ofBytes bytes = .ok c) ∨
        ∃ cause, ofBytes bytes = .error (.malformed cause)) := by
  refine ⟨ofBytes_eq_notClassFile_iff, ?_, ?_⟩
  · rintro ⟨body, rfl⟩
    cases hread : ofBytes (magic ++ body) with
    | ok c => exact .inl ⟨c, rfl⟩
    | error e =>
      obtain ⟨cause, rfl⟩ := failsWith_ofBytes body e hread
      exact .inr ⟨cause, rfl⟩
  · intro h
    by_contra hmagic
    rw [ofBytes_eq_notClassFile_iff.mpr hmagic] at h
    rcases h with ⟨c, hc⟩ | ⟨cause, hcause⟩
    · cases hc
    · cases hcause

example : magic = [0xCA, 0xFE, 0xBA, 0xBE] := rfl

/-! ## Where a class file ends -/

/-- A class file that goes on is malformed. -/
theorem ofBytes_append (h : ofBytes bytes = .ok c) {more : Bytes} (hmore : more ≠ []) :
    ofBytes (bytes ++ more) = .error (.malformed (.trailingBytes more.length)) := by
  obtain ⟨body, rfl, hbody⟩ := ofBytes_eq_ok_iff.mp h
  rw [List.append_assoc, ofBytes, if_pos (List.prefix_append _ _), List.drop_left, hbody more]
  cases more with
  | nil => exact (hmore rfl).elim
  | cons b more => rfl

/-- A class file that is cut short ends too early, unless it is too short to begin like one. -/
theorem ofBytes_of_prefix (h : ofBytes bytes = .ok c) {part : Bytes} (hpart : part <+: bytes)
    (hne : part ≠ bytes) :
    ofBytes part = .error
      (if part.length < magic.length then .notClassFile else .malformed .unexpectedEnd) := by
  obtain ⟨body, rfl, hbody⟩ := ofBytes_eq_ok_iff.mp h
  split
  · next hshort =>
    exact ofBytes_eq_notClassFile_iff.mpr fun hmagic =>
      absurd hmagic.length_le (Nat.not_le_of_lt hshort)
  · next hlong =>
    obtain ⟨rest, rfl⟩ := List.prefix_of_prefix_length_le (List.prefix_append magic body) hpart
      (Nat.le_of_not_lt hlong)
    have hrest : rest <+: body := (List.prefix_append_right_inj magic).mp hpart
    rw [ofBytes, if_pos (List.prefix_append _ _), List.drop_left,
      diagnoses_readBody.runsOut hbody hrest fun heq => hne (congrArg _ heq)]

/-- No class file goes on where another one ends. If it is cut short it ends too early, or is too
short to begin like a class file; if something follows, that is what is wrong with it. -/
theorem ofBytes_delimited (h : ofBytes bytes = .ok c) :
    (∀ part, part <+: bytes → part ≠ bytes → ofBytes part = .error
      (if part.length < magic.length then .notClassFile else .malformed .unexpectedEnd)) ∧
    ∀ more, more ≠ [] →
      ofBytes (bytes ++ more) = .error (.malformed (.trailingBytes more.length)) :=
  ⟨fun _ hpart hne => ofBytes_of_prefix h hpart hne, fun _ hmore => ofBytes_append h hmore⟩

/-- The class that loads a string, without its last byte and with one byte too many. -/
theorem ofBytes_delimited_loadingBytes :
    ofBytes loadingBytes = .ok loadingClass ∧ loadingBytes.dropLast <+: loadingBytes ∧
      loadingBytes.dropLast ≠ loadingBytes ∧
      ofBytes loadingBytes.dropLast = .error (.malformed .unexpectedEnd) ∧
      ofBytes (loadingBytes ++ [0]) = .error (.malformed (.trailingBytes 1)) := by
  have hread := ofBytes_loadingBytes
  obtain ⟨hshort, hlong⟩ := ofBytes_delimited hread
  have hprefix := loadingBytes.dropLast_prefix
  have hne : loadingBytes.dropLast ≠ loadingBytes := by decide
  exact ⟨hread, hprefix, hne, hshort _ hprefix hne, hlong [0] (List.cons_ne_nil _ _)⟩

end ClassFile

end ClassText
