import ClassText.Proofs.ClassFile.Counts
import ClassText.Proofs.Code.Length
import ClassText.Proofs.ConstantPool.Store
import ClassText.Proofs.Rewriting.Moved
import ClassText.Proofs.Rewriting.Written
import Mathlib.Algebra.Order.BigOperators.Group.List
import Mathlib.Algebra.Order.Group.Nat

/-!
# Whether rewritten code fits

The length of an attribute has thirty-two bits, and it is cut to these without
notice. So a class that was rewritten and written is read back as it should be
exactly if its code still fits (`ClassFile.ofBytes_of_rewrite`). New texts make code
longer in two ways: its instructions can grow, up to the limit that they have, and
it can get a table of frames, with at most one frame for each of its blocks
(`Code.exists_table_of_withTexts?`). Code has space for both if it is short enough
to begin with (`Code.HasSpace`).

Otherwise it may happen that one byte more is one too many, as in
`ClassFile.ofBytes_ne_of_rewrite`.
-/

namespace ClassText

open ConstantPool PoolChange

namespace Code

variable {code new : Code} {before after : ConstantPool} {rules : Rules} {draws : Draws}
  {version : Version} {method : MethodHead} {hierarchy : Hierarchy} {bytes : Bytes}

theorem length_neededFrames_le {analysis : Analysis}
    (h : Analysis.ofCode code method before hierarchy = .ok analysis) :
    (code.neededFrames analysis.frames).length ≤ code.blocks.length := by
  rw [← Analysis.map_fst_frames h, neededFrames, List.length_map, List.length_map]
  exact List.length_filter_le ..

/-- A table that was put in has a frame for each block at most. Nothing else is put in. -/
theorem exists_table_of_settleMoved {needsFrames : Bool}
    (h : code.settleMoved needsFrames method hierarchy before = (.ok new, after)) :
    new.handlers = code.handlers ∧ ∃ name table, table.length ≤ code.blocks.length ∧
      new.attributes.Sublist (code.attributes ++ frameAttributes name table) := by
  cases needsFrames with
  | false =>
    obtain ⟨hnew, -⟩ := Prod.mk.inj h
    obtain rfl := Except.ok.inj hnew
    refine ⟨rfl, 0, [], Nat.zero_le _, ?_⟩
    exact List.filter_sublist.trans (List.sublist_append_left ..)
  | true =>
    obtain ⟨framed, hderive, rfl⟩ := deriveFrames_of_settleMoved h
    obtain ⟨analysis, table, middle, name, htable, -, rfl⟩ := exists_table_of_deriveFrames hderive
    obtain ⟨-, hanalysis, hlength⟩ :=
      (ensures_deriveTable code method hierarchy before).of_run htable
    refine ⟨rfl, name, table, hlength ▸ length_neededFrames_le hanalysis, ?_⟩
    refine List.filter_sublist.trans ?_
    rw [attributes_withFrames]
    exact List.filter_sublist.append_right _

theorem exists_table_of_withTexts?
    (h : code.withTexts? (code.loadedTexts rules before draws).1 version method hierarchy before =
      (.ok (some new), after)) :
    new.handlers = code.handlers ∧ ∃ name table, table.length ≤ code.blocks.length ∧
      new.attributes.Sublist (code.attributes ++ frameAttributes name table) := by
  obtain ⟨repointed, p, hrepoint, hcases⟩ := withTexts?_eq_ok h
  obtain ⟨hgrows, hrepointed⟩ :=
    (ensures_foldlM_changed (nodup_label_loadedTexts code rules before draws) before).of_run
      hrepoint
  rcases hcases with ⟨-, rfl⟩ | ⟨-, hsettle⟩
  · refine ⟨hrepointed.handlers, 0, [], Nat.zero_le _, ?_⟩
    rw [hrepointed.attributes]
    exact List.sublist_append_left ..
  · have hloads := hrepointed.loadsAlike (fun t ht => (List.mem_filter.mp ht).1) hgrows
    have hblocks : repointed.blocks = code.blocks := by
      rw [hrepointed.rest]
      exact blocks_alike hloads
    rw [← hrepointed.handlers, ← hrepointed.attributes, ← hblocks]
    exact exists_table_of_settleMoved hsettle

/-- Code that has moved and settled is what becomes of code with new texts, if it can be
assembled. -/
theorem withTexts?_of_moved {texts : List LoadedText} {repointed : Code} {p : ConstantPool}
    {offsets offsets' : Array Nat} {written : Assembled}
    (hchanged : texts.filter (·.isChanged) ≠ [])
    (hrepoint : (texts.filter (·.isChanged)).foldlM repoint code before = (.ok repointed, p))
    (hnew : Assembled.layout repointed.instructions = .ok offsets)
    (hold : Assembled.layout code.instructions = .ok offsets') (hne : offsets ≠ offsets')
    (hsettle : repointed.settleMoved (version.needsFrames code before) method hierarchy p =
      (.ok new, after)) (hassembled : new.assemble = .ok written) :
    code.withTexts? texts version method hierarchy before = (.ok (some new), after) := by
  unfold withTexts?
  rw [run_bind, run_get]
  dsimp only
  rw [if_neg (by rwa [List.isEmpty_iff]), run_bind, hrepoint]
  dsimp only
  rw [run_bind, PoolChange.ofExcept, hnew, Except.mapError]
  dsimp only
  rw [run_bind, PoolChange.ofExcept, hold, Except.mapError]
  dsimp only
  rw [if_pos (bne_iff_ne.mpr hne), run_bind, hsettle]
  dsimp only
  rw [run_bind, PoolChange.ofExcept, hassembled, Except.mapError]
  rfl

/-! ## Space -/

/-- Is there space left for instructions as long as they may be, and for a table with a frame for
each block? -/
def HasSpace (code : Code) : Prop :=
  ∀ bytes, code.write = .ok bytes →
    bytes.length + 65535 + 8 + code.blocks.length * FrameTable.frameLimit < 2 ^ 32

theorem sum_length_frameAttributes_le (name : PoolIndex) (table : FrameTable) :
    ((frameAttributes name table).map CodeAttribute.length).sum ≤
      8 + table.length * FrameTable.frameLimit := by
  unfold frameAttributes
  split
  · exact Nat.zero_le _
  · rw [List.map_singleton, List.sum_singleton, CodeAttribute.length, CodeAttributeBody.length]
    cases hwrite : FrameTable.write table with
    | error e =>
      show 6 ≤ _
      omega
    | ok bytes =>
      have hle := FrameTable.length_le hwrite
      exact Nat.le_trans (Nat.add_le_add_left hle 6) (by rw [← Nat.add_assoc])

/-- Code for which there was space fits. -/
theorem HasSpace.length_lt {name : PoolIndex} {table : FrameTable} {bytes' : Bytes}
    (hspace : code.HasSpace) (hwrite : code.write = .ok bytes)
    (hread : Assembled.IsReadable new.instructions) (hhandlers : new.handlers = code.handlers)
    (htable : table.length ≤ code.blocks.length)
    (hattributes : new.attributes.Sublist (code.attributes ++ frameAttributes name table))
    (hnew : new.write = .ok bytes') : bytes'.length < 2 ^ 32 := by
  have hlimit := hspace bytes hwrite
  obtain ⟨old, -, hold⟩ := length_of_write hwrite
  obtain ⟨written, hassembled, hlength⟩ := length_of_write hnew
  have hinstructions : written.bytes.length ≤ 65535 := by
    rw [Assembled.length_of_ofCode hread hassembled]
    exact (Assembled.ofCode_eq_ok_iff.mp hassembled).1
  have hsum : (new.attributes.map CodeAttribute.length).sum ≤
      (code.attributes.map CodeAttribute.length).sum +
        (8 + code.blocks.length * FrameTable.frameLimit) := calc
    _ ≤ ((code.attributes ++ frameAttributes name table).map CodeAttribute.length).sum :=
      (hattributes.map _).sum_le_sum fun _ _ => Nat.zero_le _
    _ = (code.attributes.map CodeAttribute.length).sum +
        ((frameAttributes name table).map CodeAttribute.length).sum := by
      rw [List.map_append, List.sum_append]
    _ ≤ _ := Nat.add_le_add_left ((sum_length_frameAttributes_le name table).trans
      (Nat.add_le_add_left (Nat.mul_le_mul_right _ htable) 8)) _
  rw [hhandlers] at hlength
  omega

end Code

/-- Is there space in all code of the method? -/
def Method.HasSpace (method : Method) : Prop :=
  ∀ a ∈ method.attributes, ∀ code, a.body = .code code → code.HasSpace

namespace ClassFile

variable {c : ClassFile} {bytes bytes' : Bytes} {rules : Rules} {hierarchy : Hierarchy}
  {draws : Draws} {done : RewrittenClass}

/-- What was rewritten fits, if there was space for it. -/
theorem codesFit_rewrite (hread : ofBytes bytes = .ok c)
    (hroom : ∀ method ∈ c.methods, method.HasRoom)
    (hspace : ∀ method ∈ c.methods, method.HasSpace)
    (h : (c.rewrite rules hierarchy draws).outcome = .ok done) : done.classFile.CodesFit := by
  obtain ⟨hreadable, hfits, -⟩ := toBytes_of_ofBytes hread
  have hdone := hreadable.rewrite hroom h
  obtain ⟨-, hlen, name, stage, -, -, -, -, hsteps⟩ := rewrite_stages h
  intro new hnew a ha code hcode bytes hwrite
  obtain ⟨k, hk⟩ := List.mem_iff_getElem?.mp hnew
  have hlt : k < c.methods.length := hlen ▸ (List.getElem?_eq_some_iff.mp hk).1
  have hmethod := List.getElem_mem hlt
  obtain ⟨new', hnew', -, hrecodes⟩ := hsteps k _ (List.getElem?_eq_getElem hlt)
  obtain rfl := Option.some.inj (hk.symm.trans hnew')
  cases hrecodes with
  | kept => exact hfits _ hmethod a ha code hcode bytes hwrite
  | @replaced old newCode name descriptor hold hname hdescriptor hrun =>
    obtain ⟨front, codeName, back, hattributes, -, hset⟩ := Method.attributes_of_code? _ hold
    have hold' : ⟨codeName, .code old⟩ ∈ c.methods[k].attributes :=
      hattributes ▸ List.mem_append_right _ List.mem_cons_self
    have ha' := ha
    rw [Method.setCode, hset newCode] at ha'
    rcases List.mem_append.mp ha' with hfront | hback
    · exact hfits _ hmethod a (hattributes ▸ List.mem_append_left _ hfront) code hcode bytes hwrite
    rcases List.mem_cons.mp hback with rfl | hback
    · obtain rfl : newCode = code := MethodAttributeBody.code.inj hcode
      obtain ⟨-, -, written, hwritten⟩ := isReadable_code hread hmethod hold
      obtain ⟨hhandlers, _, table, htable, hsublist⟩ := Code.exists_table_of_withTexts? hrun
      obtain ⟨_, -, -, hnewCode⟩ := hdone.methods _ hnew _ ha
      exact (hspace _ hmethod _ hold' old rfl).length_lt hwritten hnewCode.instructions hhandlers
        htable hsublist hwrite
    · exact hfits _ hmethod a
        (hattributes ▸ List.mem_append_right _ (List.mem_cons_of_mem _ hback)) code hcode bytes
        hwrite

/-- What is written of a class that was read and rewritten is read back exactly if its code fits,
with the labels at the offsets of the new layouts and with the bytes of the new tables of frames.
It does fit if there was space for it. The rewriter adds one attribute to code at most. -/
theorem ofBytes_of_rewrite (hread : ofBytes bytes = .ok c)
    (hroom : ∀ method ∈ c.methods, method.HasRoom)
    (h : (c.rewrite rules hierarchy draws).outcome = .ok done)
    (hwrite : done.classFile.toBytes = .ok bytes') :
    (ofBytes bytes' = .ok done.classFile.reread ↔ done.classFile.CodesFit) ∧
      ((∀ method ∈ c.methods, method.HasSpace) →
        ofBytes bytes' = .ok done.classFile.reread) := by
  have hiff := ofBytes_toBytes_iff ((toBytes_of_ofBytes hread).1.rewrite hroom h) hwrite
  exact ⟨hiff, fun hspace => hiff.mpr (codesFit_rewrite hread hroom hspace h)⟩

/-- The code that loads a string. -/
def loadingCode : Code :=
  ⟨1, 0, #[.loadConstant 7 false, .simple Opcode.pop, .simple Opcode.returnVoid], #[0, 2, 3, 4], [],
    [⟨8, .lines [⟨0, 7⟩]⟩]⟩

/-- The same code with another string to load. -/
def reloadedCode : Code :=
  ⟨1, 0, #[.loadConstant 10 false, .simple Opcode.pop, .simple Opcode.returnVoid],
    #[0, 2, 3, 4], [], [⟨8, .lines [⟨0, 7⟩]⟩]⟩

/-- The class that loads a string, with the other string. -/
def reloadingClass : ClassFile :=
  { loadingClass with
    pool := ⟨loadingClass.pool.slots ++ #[some (.utf8 "b"), some (.string 9)], by decide⟩
    methods := [⟨0, 3, 4, [⟨5, .code reloadedCode⟩]⟩] }

theorem outcome_rewrite_loadingClass :
    ∃ done, (loadingClass.rewrite .chained ⟨[], []⟩ (.ofSeed 0)).outcome = .ok done ∧
      done.classFile = reloadingClass := by
  have h : ((loadingClass.rewrite .chained ⟨[], []⟩ (.ofSeed 0)).outcome.map
      (·.classFile)).toOption = some reloadingClass := by
    decide +kernel
  cases hrun : (loadingClass.rewrite .chained ⟨[], []⟩ (.ofSeed 0)).outcome with
  | error e =>
    rw [hrun] at h
    cases h
  | ok done =>
    rw [hrun] at h
    exact ⟨done, rfl, Option.some.inj h⟩

theorem ofBytes_of_rewrite_loadingBytes :
    ofBytes loadingBytes = .ok loadingClass ∧
      (∀ method ∈ loadingClass.methods, method.HasRoom ∧ method.HasSpace) ∧
      ∃ done bytes', (loadingClass.rewrite .chained ⟨[], []⟩ (.ofSeed 0)).outcome = .ok done ∧
        done.classFile.toBytes = .ok bytes' ∧ ofBytes bytes' = .ok done.classFile.reread := by
  obtain ⟨done, hdone, hclass⟩ := outcome_rewrite_loadingClass
  have hmethods : ∀ method ∈ loadingClass.methods, method.HasRoom ∧ method.HasSpace := by
    intro method hmethod
    obtain rfl := List.mem_singleton.mp hmethod
    have hspace : loadingCode.HasSpace := by
      have hwritten : loadingCode.write.toOption.map List.length = some 28 := by decide +kernel
      have hblocks : loadingCode.blocks.length = 1 := by decide +kernel
      intro bytes hbytes
      rw [hbytes] at hwritten
      rw [show bytes.length = 28 from Option.some.inj hwritten, hblocks]
      decide
    refine ⟨fun a ha code hcode => ?_, fun a ha code hcode => ?_⟩ <;>
      obtain rfl := List.mem_singleton.mp ha <;>
      obtain rfl : loadingCode = code := MethodAttributeBody.code.inj hcode
    · decide
    · exact hspace
  have hwritten : reloadingClass.toBytes.toOption.isSome = true := by decide +kernel
  cases hwrite : done.classFile.toBytes with
  | error e =>
    rw [← hclass, hwrite] at hwritten
    cases hwritten
  | ok bytes' =>
    exact ⟨ofBytes_loadingBytes, hmethods, done, bytes', hdone, hwrite,
      (ofBytes_of_rewrite ofBytes_loadingBytes (fun method hmethod => (hmethods method hmethod).1)
        hdone hwrite).2 fun method hmethod => (hmethods method hmethod).2⟩

/-! ## One byte more -/

/-- Code that loads a string, with a note. -/
def notedCode (first : Instruction) (note : Bytes) : Code where
  maxStack := 1
  maxLocals := 1
  instructions := #[first, .simple Opcode.pop, .simple Opcode.returnVoid]
  sourceOffsets := #[0, 2, 3, 4]
  handlers := []
  attributes := [⟨11, .raw note⟩]

def notedMethod (code : Code) : Method := ⟨8, 3, 4, [⟨5, .code code⟩]⟩

/-- A class with this code, in which there have to be no frames. -/
def notedClass (pool : ConstantPool) (code : Code) : ClassFile :=
  { choosingClass pool with version := ⟨49, 0⟩, methods := [notedMethod code] }

/-- The pool with the string that replaces the one before, which has the index 257. -/
def rechosenWidePool : ConstantPool :=
  ⟨(choosingSlots 122 ++ [some (Constant.string 12)]).toArray, by decide +kernel⟩

theorem assemble_notedCode (note : Bytes) :
    (notedCode (.loadConstant 7 false) note).assemble =
        .ok ⟨#[0, 2, 3, 4], [18, 7, 87, 177]⟩ ∧
      (notedCode (.loadConstant 257 true) note).assemble =
        .ok ⟨#[0, 3, 4, 5], [19, 1, 1, 87, 177]⟩ := by
  show (notedCode (.loadConstant 7 false) []).assemble = _ ∧
    (notedCode (.loadConstant 257 true) []).assemble = _
  constructor <;> exact Success.toOption_eq_some.mp (by decide +kernel)

theorem repoint_notedCode (note : Bytes) (rewrite : Rewrite) (htext : rewrite.text = "b") :
    (notedCode (.loadConstant 7 false) note).repoint ⟨0, "a", rewrite⟩ wideChoosingPool =
      (.ok (notedCode (.loadConstant 257 true) note), rechosenWidePool) := by
  have hfound : wideChoosingPool.find? (.utf8 "b") = some 12 := by
    rw [find?_eq_findIdx?]
    decide +kernel
  have htextAt : PoolChange.internText "b" wideChoosingPool = (.ok 12, wideChoosingPool) :=
    PoolCall.internText_of_isFirst (find?_eq_some_iff.mp hfound)
  have habsent : wideChoosingPool.find? (.string 12) = none := by
    rw [find?_eq_findIdx?]
    decide +kernel
  have hpush : wideChoosingPool.push (.string 12) = .ok (257, rechosenWidePool) :=
    push_of_slots (by decide +kernel) (by decide +kernel) (by decide +kernel)
  have hstringAt : PoolChange.internString 12 wideChoosingPool = (.ok 257, rechosenWidePool) := by
    rw [PoolChange.internString, PoolChange.intern, PoolCall.run_ofStep_eq_ok,
      ConstantPool.intern, habsent, hpush]
  rw [Code.repoint, htext, run_bind, htextAt]
  dsimp only
  rw [run_bind, hstringAt]
  rfl

theorem loadedTexts_notedCode (note : Bytes) :
    ((notedCode (.loadConstant 7 false) note).loadedTexts .chained wideChoosingPool
      (.ofSeed 0)).1 = [⟨0, "a", ⟨"b", [⟨"a", "b"⟩]⟩⟩] := by
  show ((notedCode (.loadConstant 7 false) []).loadedTexts .chained wideChoosingPool
    (.ofSeed 0)).1 = _
  decide +kernel

/-- The note says nothing about offsets, so it stays when the instructions move. -/
theorem settleMoved_notedCode (first : Instruction) (note : Bytes) (head : MethodHead)
    (hierarchy : Hierarchy) :
    (notedCode first note).settleMoved false head hierarchy rechosenWidePool =
      (.ok (notedCode first note), rechosenWidePool) := by
  have hnote : rechosenWidePool.text? 11 = some "Note" := by decide +kernel
  have hfresh : CodeAttribute.isStale rechosenWidePool ⟨11, .raw note⟩ = false := by
    simp only [CodeAttribute.isStale, hnote]
    decide
  have hsettled : (notedCode first note).settleMoved false head hierarchy rechosenWidePool =
      (.ok ((notedCode first note).dropStale rechosenWidePool), rechosenWidePool) := rfl
  rw [hsettled, Code.dropStale, show (notedCode first note).attributes = [⟨11, .raw note⟩] from rfl,
    List.filter_cons_of_pos (by rw [hfresh]; rfl), List.filter_nil]
  rfl

theorem withTexts?_notedCode (note : Bytes) (head : MethodHead) (hierarchy : Hierarchy) :
    (notedCode (.loadConstant 7 false) note).withTexts?
      ((notedCode (.loadConstant 7 false) note).loadedTexts .chained wideChoosingPool
        (.ofSeed 0)).1 ⟨49, 0⟩ head hierarchy wideChoosingPool =
      (.ok (some (notedCode (.loadConstant 257 true) note)), rechosenWidePool) := by
  obtain ⟨hbefore, hafter⟩ := assemble_notedCode note
  have hold := Assembled.layout_of_ofCode hbefore
  have hnew := Assembled.layout_of_ofCode hafter
  rw [loadedTexts_notedCode]
  refine Code.withTexts?_of_moved (by decide) ?_ hnew hold (by decide)
    (settleMoved_notedCode _ note head hierarchy) hafter
  rw [List.filter_cons_of_pos (by decide), List.filter_nil, List.foldlM_cons, run_bind,
    repoint_notedCode note _ rfl]
  rfl

/-! The class can be read and written, and whether it fits is a matter of lengths. -/

theorem isReadable_notedClass (note : Bytes) :
    (notedClass wideChoosingPool (notedCode (.loadConstant 7 false) note)).IsReadable := by
  have hread := (toBytes_of_ofBytes ofBytes_choosingBytes_wide).1
  have hdecoded : Decoded.ofBytes [18, 7, 87, 177] =
      .ok ⟨(notedCode (.loadConstant 7 false) note).instructions, #[0, 2, 3, 4]⟩ :=
    Success.toOption_eq_some.mp (by simp only [notedCode]; decide +kernel)
  obtain ⟨hinstructions, -⟩ := Assembled.ofCode_of_ofBytes hdecoded (by decide)
  have hcode : wideChoosingPool.text 5 = .ok "Code" :=
    Success.toOption_eq_some.mp (by decide +kernel)
  have hnote : wideChoosingPool.text 11 = .ok "Note" :=
    Success.toOption_eq_some.mp (by decide +kernel)
  have hreadable : (notedCode (.loadConstant 7 false) note).IsReadable wideChoosingPool := {
    instructions := hinstructions
    nonempty := by simp [notedCode]
    short := (Assembled.ofCode_eq_ok_iff.mp (assemble_notedCode note).1).1
    handlers := fun _ h => (List.not_mem_nil h).elim
    handlers_le := Nat.zero_le _
    attributes := by
      intro a ha
      obtain rfl := List.mem_singleton.mp ha
      refine ⟨"Note", hnote, ?_⟩
      show CodeAttribute.bodyOf _ "Note" note = _
      rw [CodeAttribute.bodyOf, if_neg (by decide), if_neg (by decide), if_neg (by decide)]
      rfl
    attributes_le := Nat.le_add_left 1 65534 }
  exact {
    pool := hread.pool
    thisClass := hread.thisClass
    superClass := hread.superClass
    interfaces := hread.interfaces
    fields := hread.fields
    methods := by
      intro method hmethod a ha
      obtain rfl := List.mem_singleton.mp hmethod
      obtain rfl := List.mem_singleton.mp ha
      exact ⟨"Code", hcode, rfl, hreadable⟩
    attributes := hread.attributes }

theorem write_notedCode {first : Instruction} {note : Bytes} {written : Assembled}
    (h : (notedCode first note).assemble = .ok written) :
    ∃ bytes, (notedCode first note).write = .ok bytes ∧
      bytes.length = 18 + written.bytes.length + note.length := by
  have hwrite : (notedCode first note).write = .ok _ := Code.write_eq_ok_iff.mpr
    ⟨written.offsets, written.bytes, [_], h, .cons (Attribute.write_eq_ok_iff.mpr ⟨note, rfl, rfl⟩)
      .nil, rfl⟩
  refine ⟨_, hwrite, ?_⟩
  obtain ⟨_, hassembled, hlength⟩ := Code.length_of_write hwrite
  obtain rfl := Except.ok.inj (h.symm.trans hassembled)
  have hsum : ((notedCode first note).attributes.map CodeAttribute.length).sum =
      6 + note.length := rfl
  have hhandlers : (notedCode first note).handlers.length = 0 := rfl
  omega

theorem codesFit_notedClass_iff {pool : ConstantPool} {first : Instruction} {note : Bytes}
    {written : Assembled} (h : (notedCode first note).assemble = .ok written) :
    (notedClass pool (notedCode first note)).CodesFit ↔
      18 + written.bytes.length + note.length < 2 ^ 32 := by
  obtain ⟨bytes, hwrite, hlength⟩ := write_notedCode h
  rw [← hlength]
  constructor
  · intro hfits
    exact hfits _ List.mem_cons_self _ List.mem_cons_self _ rfl bytes hwrite
  · intro hlt method hmethod a ha code hcode bytes' hwrite'
    obtain rfl := List.mem_singleton.mp hmethod
    obtain rfl := List.mem_singleton.mp ha
    obtain rfl := MethodAttributeBody.code.inj hcode
    obtain rfl := Except.ok.inj (hwrite.symm.trans hwrite')
    exact hlt

theorem exists_toBytes_notedClass {pool : ConstantPool} {first : Instruction} {note : Bytes}
    {written : Assembled} (hpool : pool.write.toOption.isSome)
    (h : (notedCode first note).assemble = .ok written) :
    ∃ bytes, (notedClass pool (notedCode first note)).toBytes = .ok bytes := by
  obtain ⟨poolBytes, hpool⟩ := Option.isSome_iff_exists.mp hpool
  obtain ⟨bytes, hwrite, -⟩ := write_notedCode h
  exact exists_toBytes_of_code (Success.toOption_eq_some.mp hpool) rfl rfl rfl rfl hwrite

/-- A class with one method is rewritten when the texts of that method are. -/
theorem exists_rewrite_of_withTexts? {method : Method} {code new : Code} {grown : ConstantPool}
    {className name descriptor : String} (hclass : c.rewritableName = .ok className)
    (hmethods : c.methods = [method]) (hcode : method.code? = some code)
    (hname : method.nameText c.pool = .ok name)
    (hdescriptor : method.descriptorText c.pool = .ok descriptor)
    (htexts : (code.loadedTexts rules c.pool draws).1 ≠ [])
    (hrun : code.withTexts? (code.loadedTexts rules c.pool draws).1 c.version
      ⟨className, name, descriptor, method.isStatic⟩ hierarchy c.pool = (.ok (some new), grown)) :
    ∃ done, (c.rewrite rules hierarchy draws).outcome = .ok done ∧
      done.classFile = { c with pool := grown, methods := [method.setCode new] } := by
  have hstep : ∃ after, ClassContext.rewriteMethod ⟨className, c.version, rules, hierarchy⟩ method
      ⟨c.pool, draws, [], {}⟩ = (.ok (method.setCode new), after) ∧ after.pool = grown := by
    simp only [ClassContext.rewriteMethod, ClassContext.rewriteCode, run_bind, run_get,
      ClassStep.ofExcept, hname, hdescriptor, hcode, ClassContext.run_drawing]
    rw [if_neg (by rwa [List.isEmpty_iff])]
    simp only [run_bind, ClassContext.run_changing, hrun]
    exact ⟨_, rfl, rfl⟩
  obtain ⟨after, hstep, rfl⟩ := hstep
  refine ⟨⟨{ c with pool := after.pool, methods := [method.setCode new] }, after.report⟩, ?_, rfl⟩
  unfold rewrite
  rw [hclass, hmethods]
  dsimp only
  rw [List.mapM_cons, run_bind, hstep]
  rfl

theorem exists_rewrite_notedClass (note : Bytes) :
    ∃ done, ((notedClass wideChoosingPool (notedCode (.loadConstant 7 false) note)).rewrite .chained
        ⟨[], []⟩ (.ofSeed 0)).outcome = .ok done ∧
      done.classFile = notedClass rechosenWidePool (notedCode (.loadConstant 257 true) note) := by
  have hclass : (notedClass wideChoosingPool
      (notedCode (.loadConstant 7 false) note)).rewritableName = .ok "A" := by
    show (choosingClass wideChoosingPool).rewritableName = _
    exact Success.toOption_eq_some.mp (by decide +kernel)
  have hname : wideChoosingPool.text 3 = .ok "m" :=
    Success.toOption_eq_some.mp (by decide +kernel)
  have hdescriptor : wideChoosingPool.text 4 = .ok "(I)V" :=
    Success.toOption_eq_some.mp (by decide +kernel)
  have htexts : ((notedCode (.loadConstant 7 false) note).loadedTexts .chained wideChoosingPool
      (.ofSeed 0)).1 ≠ [] := by
    rw [loadedTexts_notedCode]
    exact List.cons_ne_nil _ _
  exact exists_rewrite_of_withTexts? hclass rfl rfl hname hdescriptor htexts
    (withTexts?_notedCode note _ _)

/-- A class with one note that is as long as it can be is not read back once a load in its code has
become longer by one byte. -/
theorem ofBytes_ne_of_rewrite :
    let c := notedClass wideChoosingPool
      (notedCode (.loadConstant 7 false) (List.replicate (2 ^ 32 - 23) 0))
    ∃ bytes done bytes', ofBytes bytes = .ok c ∧ (∀ method ∈ c.methods, method.HasRoom) ∧
      (c.rewrite .chained ⟨[], []⟩ (.ofSeed 0)).outcome = .ok done ∧
      done.classFile.toBytes = .ok bytes' ∧ ofBytes bytes' ≠ .ok done.classFile.reread := by
  intro c
  have hlength : (List.replicate (2 ^ 32 - 23) (0 : UInt8)).length = 2 ^ 32 - 23 :=
    List.length_replicate
  revert c
  -- The note is not looked into.
  generalize List.replicate (2 ^ 32 - 23) (0 : UInt8) = note at hlength
  intro c
  obtain ⟨hbefore, hafter⟩ := assemble_notedCode note
  have hreadable : c.IsReadable := isReadable_notedClass note
  have hfits : c.CodesFit := (codesFit_notedClass_iff hbefore).mpr (by rw [hlength]; decide)
  have hpool : wideChoosingPool.write.toOption.isSome := by decide +kernel
  have hpool' : rechosenWidePool.write.toOption.isSome := by decide +kernel
  obtain ⟨bytes, hbytes⟩ := exists_toBytes_notedClass hpool hbefore
  have hreread : c.reread = c := rfl
  have hread : ofBytes bytes = .ok c := hreread ▸ ofBytes_of_toBytes hreadable hfits hbytes
  have hroom : ∀ method ∈ c.methods, method.HasRoom := by
    intro method hmethod a ha code hcode
    obtain rfl := List.mem_singleton.mp hmethod
    obtain rfl := List.mem_singleton.mp ha
    obtain rfl := MethodAttributeBody.code.inj hcode
    exact Nat.lt_of_sub_eq_succ rfl
  obtain ⟨done, hdone, hclass⟩ := exists_rewrite_notedClass note
  obtain ⟨bytes', hbytes'⟩ := exists_toBytes_notedClass hpool' hafter
  have hwrite : done.classFile.toBytes = .ok bytes' := hclass ▸ hbytes'
  refine ⟨bytes, done, bytes', hread, hroom, hdone, hwrite, fun hagain => ?_⟩
  have hfits' := (ofBytes_toBytes_iff (hreadable.rewrite hroom hdone) hwrite).mp hagain
  rw [hclass, codesFit_notedClass_iff hafter, hlength] at hfits'
  exact absurd hfits' (by decide)

end ClassFile

end ClassText
