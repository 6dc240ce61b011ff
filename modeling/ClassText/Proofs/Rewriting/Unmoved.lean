import ClassText.Proofs.ClassFile.Codec
import ClassText.Proofs.Frame.Analysis
import ClassText.Proofs.Frame.Transfer
import ClassText.Proofs.Rewriting.Methods

/-!
# Frames of code that has not moved

When the new texts of a method fit where the old ones were, its table of frames is
kept as it is. That is right because nothing else could come of deriving the
frames again: the code with its new texts is analysed with the same result as the
code before, in the pool that was left by adding them (`ofCode_repointed`).

The old code is analysed in the pool of the class, or in one to which other
methods have added constants. What the rules found in the method it loads from
strings; where it loads from an index at which there is nothing yet, the old
analysis fails, and nothing is claimed.
-/

namespace ClassText

open ConstantPool PoolChange

/-! ## Loads of strings -/

theorem stringAt_of_foundText? {pool : ConstantPool} {insn : Instruction}
    {rewrite? : Option Rewrite} {label : Label} {t : LoadedText}
    (h : insn.foundText? pool rewrite? label = some t) :
    ∃ index wide text, insn = .loadConstant index wide ∧ pool.get? index = some (.string text) := by
  unfold Instruction.foundText? at h
  split at h
  · next hloaded =>
    obtain ⟨index, hindex, htext⟩ := Option.bind_eq_some_iff.mp hloaded
    obtain ⟨text, hget, -⟩ := stringText?_eq_some_iff.mp htext
    cases insn with
    | loadConstant found wide =>
      obtain rfl := Option.some.inj hindex
      exact ⟨found, wide, text, rfl, hget⟩
    | _ => cases hindex
  · cases h

/-- The new texts are loaded where strings were loaded before, and from strings. -/
theorem Code.IsRepointed.loadsAlike {code repointed : Code} {rules : Rules}
    {before after : ConstantPool} {draws : Draws} {texts : List LoadedText}
    (h : code.IsRepointed repointed texts after)
    (htexts : ∀ t ∈ texts, t ∈ (code.loadedTexts rules before draws).1)
    (hgrows : before.Grows after) :
    List.Forall₂ (Instruction.LoadsAlike after) code.instructions.toList
      repointed.instructions.toList := by
  refine List.forall₂_iff_get.mpr ⟨by simp [h.size], fun i hi hi' => ?_⟩
  rw [Array.length_toList] at hi hi'
  simp only [List.get_eq_getElem, Array.getElem_toList]
  have hinsn := Array.getElem?_eq_getElem hi
  have hinsn' := Array.getElem?_eq_getElem hi'
  by_cases hlabel : ∀ t ∈ texts, t.label ≠ i
  · have hkept := h.kept i hlabel
    rw [hinsn, hinsn'] at hkept
    rw [Option.some.inj hkept]
    exact .same _
  · push Not at hlabel
    obtain ⟨t, ht, rfl⟩ := hlabel
    obtain ⟨insn, rewrite?, hcode, -, hfound⟩ := mem_loadedTexts.mp (htexts t ht)
    obtain ⟨index, wide, text, rfl, hstring⟩ := stringAt_of_foundText? hfound
    obtain ⟨index', hindex', hload⟩ := h.loads t ht
    obtain ⟨text', hstring', -⟩ := stringText?_eq_some_iff.mp hindex'
    rw [hcode, hinsn'] at hload
    rw [Option.some.inj (hinsn.symm.trans hcode), Option.some.inj hload]
    exact .strings (hgrows.get? hstring) hstring'

/-! ## The code of a class that was read -/

theorem Code.IsReadable.isNamed {pool : ConstantPool} {code : Code} (h : code.IsReadable pool) :
    code.IsNamed pool := by
  intro a ha
  obtain ⟨name, hname, -⟩ := h.attributes a ha
  rw [text?_eq_some_iff.mpr (text_eq_ok_iff.mp hname), Option.isSome_some]

namespace ClassFile

variable {bytes : Bytes} {c : ClassFile} {method : Method} {code : Code}

theorem mem_attributes_of_code? (h : method.code? = some code) :
    ∃ a ∈ method.attributes, a.body = .code code := by
  obtain ⟨a, ha, hbody⟩ := List.exists_of_findSome?_eq_some h
  refine ⟨a, ha, ?_⟩
  cases hcase : a.body with
  | code other =>
    rw [hcase] at hbody
    exact congrArg _ (Option.some.inj hbody)
  | raw bytes =>
    rw [hcase] at hbody
    cases hbody

/-- Code that was read can be read again, comes back as it was, and can be written. -/
theorem isReadable_code (hread : ofBytes bytes = .ok c) (hmethod : method ∈ c.methods)
    (hcode : method.code? = some code) :
    code.IsReadable c.pool ∧ code.reread = code ∧ ∃ written, code.write = .ok written := by
  obtain ⟨hreadable, -, hreread, written, hwritten⟩ := toBytes_of_ofBytes hread
  obtain ⟨a, ha, hbody⟩ := mem_attributes_of_code? hcode
  refine ⟨?_, ?_, ?_⟩
  · obtain ⟨name, -, hhas⟩ := hreadable.methods method hmethod a ha
    rw [hbody] at hhas
    exact hhas.2
  · have hmethods : c.methods.map (Member.mapBodies MethodAttributeBody.reread) = c.methods :=
      congrArg ClassFile.methods hreread
    have hsame := List.map_inj_left.mp (hmethods.trans (List.map_id _).symm) method hmethod
    have hattributes : method.attributes.map (Attribute.mapBody MethodAttributeBody.reread) =
        method.attributes := congrArg Member.attributes hsame
    have hsame' := List.map_inj_left.mp (hattributes.trans (List.map_id _).symm) a ha
    have hbodies : a.body.reread = a.body := congrArg Attribute.body hsame'
    rw [hbody] at hbodies
    exact MethodAttributeBody.code.inj hbodies
  · obtain ⟨_, hsections, -⟩ := write_eq_ok_iff.mp (Success.mapError_eq_ok.mp hwritten)
    obtain ⟨_, hwrite⟩ := Written.write_of_counted hsections.methods hmethod
    obtain ⟨_, hattributes, -⟩ := Success.bind_eq_ok.mp hwrite
    obtain ⟨_, hattribute⟩ := Written.write_of_counted hattributes ha
    obtain ⟨bytes, hbytes, -⟩ := Attribute.write_eq_ok_iff.mp hattribute
    rw [hbody] at hbytes
    exact ⟨bytes, hbytes⟩

theorem isNamed_code (hread : ofBytes bytes = .ok c) (hmethod : method ∈ c.methods)
    (hcode : method.code? = some code) : code.IsNamed c.pool :=
  (isReadable_code hread hmethod hcode).1.isNamed

/-- Code of a class that was read is analysed with the same result before and after its texts
were rewritten. The rules find the texts in a pool to which other methods may have added, and the
old code is analysed in that pool, or in one that it has grown from; what the old code has
recorded is missing or can be read there. -/
theorem ofCode_repointed (hread : ofBytes bytes = .ok c) (hmethod : method ∈ c.methods)
    (hcode : method.code? = some code) {known before after : ConstantPool}
    (hknown : c.pool.Grows known) (hbefore : known.Grows before) {rules : Rules} {draws : Draws}
    {repointed : Code}
    (hrun : (((code.loadedTexts rules before draws).1.filter (·.isChanged)).foldlM Code.repoint
      code) before = (.ok repointed, after))
    {head : MethodHead} {hierarchy : Hierarchy} {a : Analysis}
    (hrecorded : code.attribute? known CodeAttribute.frameTable = none ∨
      code.RecordsFrames known a.entry)
    (ha : Analysis.ofCode code head known hierarchy = .ok a) :
    Analysis.ofCode repointed head after hierarchy = .ok a := by
  obtain ⟨hgrows, hrepointed⟩ :=
    (ensures_foldlM_changed (nodup_label_loadedTexts code rules before draws) before).of_run hrun
  have hfound : ∀ t ∈ (code.loadedTexts rules before draws).1.filter LoadedText.isChanged,
      t ∈ (code.loadedTexts rules before draws).1 := fun t ht => (List.mem_filter.mp ht).1
  have hloads := hrepointed.loadsAlike hfound hgrows
  have hnamed : code.IsNamed known := by
    intro b hb
    obtain ⟨name, hname⟩ := Option.isSome_iff_exists.mp
      (isNamed_code hread hmethod hcode b hb)
    rw [hknown.text? hname, Option.isSome_some]
  rw [hrepointed.rest]
  exact Analysis.ofCode_transfer (hbefore.trans hgrows) hloads hnamed
    (hrecorded.elim Code.recordsFrames_of_absent id) ha

/-! ## A class that chooses -/

/-- A class whose method loads a string on one of two paths, with a table of frames for the place
where they meet, a second table of that name, a table of lines and a note. Its pool ends with so
many constants of width two. -/
def choosingBytes (wide : Nat) : Bytes :=
  [202, 254, 186, 190, 0, 0, 0, 50] ++ Bytes.word16 (.ofNat (13 + 2 * wide)) ++
  [1, 0, 1, 65, 7, 0, 1, 1, 0, 1, 109, 1, 0, 4, 40, 73, 41, 86, 1, 0, 4, 67, 111, 100, 101, 1, 0,
    1, 97, 8, 0, 6, 1, 0, 13, 83, 116, 97, 99, 107, 77, 97, 112, 84, 97, 98, 108, 101, 1, 0, 15, 76,
    105, 110, 101, 78, 117, 109, 98, 101, 114, 84, 97, 98, 108, 101, 1, 0, 13, 83, 116, 97, 99, 107,
    77, 97, 112, 84, 97, 98, 108, 101, 1, 0, 4, 78, 111, 116, 101, 1, 0, 1, 98] ++
  (List.replicate wide [5, 0, 0, 0, 0, 0, 0, 0, 0]).flatten ++
  [0, 0, 0, 2, 0, 0, 0, 0, 0, 0, 0, 1, 0, 8, 0, 3, 0, 4, 0, 1, 0, 5, 0, 0, 0, 55, 0, 1, 0, 1, 0, 0,
    0, 8, 26, 153, 0, 6, 18, 7, 87, 177, 0, 0, 0, 4, 0, 8, 0, 0, 0, 3, 0, 1, 7, 0, 9, 0, 0, 0, 6, 0,
    1, 0, 4, 0, 3, 0, 10, 0, 0, 0, 1, 0, 0, 11, 0, 0, 0, 1, 5, 0, 0]

def choosingSlots (wide : Nat) : List (Option Constant) :=
  [none, some (.utf8 "A"), some (.classRef 1), some (.utf8 "m"), some (.utf8 "(I)V"),
    some (.utf8 "Code"), some (.utf8 "a"), some (.string 6), some (.utf8 "StackMapTable"),
    some (.utf8 "LineNumberTable"), some (.utf8 "StackMapTable"), some (.utf8 "Note"),
    some (.utf8 "b")] ++
  (List.replicate wide [some (.long 0), none]).flatten

def choosingCode : Code where
  maxStack := 1
  maxLocals := 1
  instructions := #[.slot Opcode.iload 0 .short, .branch Opcode.ifeq 4, .loadConstant 7 false,
    .simple Opcode.pop, .simple Opcode.returnVoid]
  sourceOffsets := #[0, 1, 4, 6, 7, 8]
  handlers := []
  attributes := [⟨8, .raw [0, 1, 7]⟩, ⟨9, .lines [⟨2, 3⟩]⟩, ⟨10, .raw [0]⟩, ⟨11, .raw [5]⟩]

def choosingMethod : Method := ⟨8, 3, 4, [⟨5, .code choosingCode⟩]⟩

/-- What stands in the bytes, with the pool that stands there. -/
def choosingClass (pool : ConstantPool) : ClassFile :=
  ⟨⟨50, 0⟩, pool, 0, 2, none, [], [], [choosingMethod], []⟩

/-- What was read is told slot by slot. -/
theorem ofBytes_eq_ok_of_slots {bytes : Bytes} {c : ClassFile}
    (h : (ofBytes bytes).toOption.map (fun c => (c.pool.slots.toList, { c with pool := .empty })) =
      some (c.pool.slots.toList, { c with pool := .empty })) : ofBytes bytes = .ok c := by
  cases hread : ofBytes bytes with
  | error e =>
    rw [hread] at h
    cases h
  | ok other =>
    rw [hread] at h
    obtain ⟨hslots, hrest⟩ := Prod.mk.inj (Option.some.inj h)
    have hother : other = { c with pool := other.pool } :=
      congrArg (fun c => { c with pool := other.pool }) hrest
    rw [hother, eq_of_slots hslots]

def choosingPool : ConstantPool := ⟨(choosingSlots 0).toArray, by decide⟩

/-- The code with the string that stands behind the pool of before. -/
def rechosenCode : Code :=
  { choosingCode with
    instructions := choosingCode.instructions.set 2 (.loadConstant 13 false) (by decide) }

def rechosenPool : ConstantPool :=
  ⟨(choosingSlots 0 ++ [some (Constant.string 12)]).toArray, by decide⟩

theorem ofCode_repointed_choosing :
    ofBytes (choosingBytes 0) = .ok (choosingClass choosingPool) ∧
    (((choosingCode.loadedTexts .chained choosingPool (.ofSeed 0)).1.filter
      (·.isChanged)).foldlM Code.repoint choosingCode) choosingPool =
        (.ok rechosenCode, rechosenPool) ∧
    ∃ a, choosingCode.RecordsFrames choosingPool a.entry ∧
      Analysis.ofCode choosingCode ⟨"A", "m", "(I)V", true⟩ choosingPool ⟨[], []⟩ = .ok a ∧
      Analysis.ofCode rechosenCode ⟨"A", "m", "(I)V", true⟩ rechosenPool ⟨[], []⟩ = .ok a := by
  have hread : ofBytes (choosingBytes 0) = .ok (choosingClass choosingPool) :=
    ofBytes_eq_ok_of_slots (by decide +kernel)
  have hrun : (show Except ClassError Code × ConstantPool from
      (((choosingCode.loadedTexts .chained choosingPool (.ofSeed 0)).1.filter
        (·.isChanged)).foldlM Code.repoint choosingCode) choosingPool) =
          (.ok rechosenCode, rechosenPool) := by
    decide +kernel
  have hanalysed : (Analysis.ofCode choosingCode ⟨"A", "m", "(I)V", true⟩ choosingPool
      ⟨[], []⟩).toOption.isSome = true := by decide +kernel
  cases ha : Analysis.ofCode choosingCode ⟨"A", "m", "(I)V", true⟩ choosingPool ⟨[], []⟩ with
  | error e =>
    rw [ha] at hanalysed
    cases hanalysed
  | ok a =>
    obtain ⟨-, -, hentry, -⟩ := Analysis.ofCode_eq_ok ha
    have hstart : Analysis.entryOf choosingCode ⟨"A", "m", "(I)V", true⟩ =
        .ok ⟨[.integer], []⟩ := by decide +kernel
    have hrecords : choosingCode.RecordsFrames choosingPool a.entry := by
      rw [← Except.ok.inj (hstart.symm.trans hentry)]
      unfold Code.RecordsFrames
      decide +kernel
    exact ⟨hread, hrun, a, hrecords, rfl, ofCode_repointed hread List.mem_cons_self rfl
      (.refl _) (.refl _) hrun (.inr hrecords) ha⟩

end ClassFile

end ClassText
