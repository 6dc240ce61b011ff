import ClassText.Proofs.ClassFile.Codec
import ClassText.Proofs.Rewriting.Methods

/-!
# A rewritten class is readable

A class that was read stays readable while it is rewritten. Another constant to
load changes neither the form of an instruction nor its targets, so the
instructions remain well formed; handlers and tables refer to labels, and there
are as many labels as before. An attribute that was kept as bytes, because its
offsets belong to no instruction, stays so in code that has not moved, and is
left out of code that has. So all that is in the rewritten class can be read,
once it is written (`ClassFile.IsReadable.rewrite`).
-/

namespace ClassText

open ConstantPool Assembled

variable {pool grown : ConstantPool}

/-! ## Instructions -/

theorem Instruction.isWellFormed_loadInstead {insn : Instruction} {index : PoolIndex}
    (h : insn.IsWellFormed) : (insn.loadInstead index).IsWellFormed := by
  cases insn with
  | loadConstant old wide =>
    show isWideLoad index (wide || decide (255 < index.toNat)) = _
    rw [isWideLoad, Bool.or_assoc, Bool.or_self]
  | _ => exact h

theorem Instruction.targets_loadInstead {insn : Instruction} {index : PoolIndex} :
    (insn.loadInstead index).targets = insn.targets := by
  cases insn <;> rfl

theorem Code.IsRepointed.readable {code repointed : Code} {texts : List LoadedText}
    (h : code.IsRepointed repointed texts pool)
    (hread : Assembled.IsReadable code.instructions) :
    Assembled.IsReadable repointed.instructions := by
  intro insn hinsn
  obtain ⟨i, hi⟩ := List.mem_iff_getElem?.mp hinsn
  rw [Array.getElem?_toList] at hi
  rw [h.size]
  rcases h.instruction i with hkept | ⟨index, hload⟩
  · rw [hkept] at hi
    exact hread insn (Array.mem_toList_iff.mpr (Array.mem_of_getElem? hi))
  · rw [hload, Option.map_eq_some_iff] at hi
    obtain ⟨old, hold, rfl⟩ := hi
    obtain ⟨hwell, htargets⟩ := hread old (Array.mem_toList_iff.mpr (Array.mem_of_getElem? hold))
    exact ⟨Instruction.isWellFormed_loadInstead hwell, by rwa [Instruction.targets_loadInstead]⟩

/-! ## Attributes of code -/

namespace CodeAttribute

variable {code new : Array Instruction} {a : CodeAttribute}

theorem IsReadable.grows (h : IsReadable pool code a) (hgrows : pool.Grows grown) :
    IsReadable grown code a :=
  let ⟨name, hname, hbody⟩ := h
  ⟨name, hgrows.text hname, hbody⟩

/-- Only bytes depend on more than the number of labels. -/
theorem HasBody.of_size {name : String} {body : CodeAttributeBody} (h : HasBody code name body)
    (hsize : new.size = code.size)
    (hraw : ∀ bytes, body = .raw bytes → bodyOf (offsetsOf new) name bytes = .raw bytes) :
    HasBody new name body := by
  cases body with
  | raw bytes => exact hraw bytes rfl
  | frames table => exact h
  | _ =>
    simp only [HasBody, IsLineIn, IsVariableIn, hsize] at h ⊢
    exact h

/-- Bytes under a name that announces no offsets are kept as they are. -/
theorem bodyOf_of_not_stale {name : String} {bytes : Bytes} {offsets : Array Nat}
    (hname : pool.text a.name = .ok name) (hbody : a.body = .raw bytes)
    (hstale : isStale pool a = false) : bodyOf offsets name bytes = .raw bytes := by
  have hnot : name ∉ offsetNames := by
    intro hmem
    have htext : pool.text? a.name = some name :=
      text?_eq_some_iff.mpr (text_eq_ok_iff.mp hname)
    have hany : offsetNames.any (fun other => pool.text? a.name == some other) = true :=
      List.any_eq_true.mpr ⟨name, hmem, by rw [htext, beq_self_eq_true]⟩
    rw [isStale, hbody] at hstale
    exact Bool.false_ne_true (hstale.symm.trans hany)
  rcases bodyOf_cases offsets name bytes with ⟨rfl, -⟩ | ⟨rfl, -⟩ | ⟨rfl, -⟩ | h
  · exact (hnot (by decide)).elim
  · exact (hnot (by decide)).elim
  · exact (hnot (by decide)).elim
  · exact h

end CodeAttribute

/-! ## Code -/

namespace Code

variable {code new : Code}

theorem IsReadable.grows (h : code.IsReadable pool) (hgrows : pool.Grows grown) :
    code.IsReadable grown :=
  { h with attributes := fun a ha => (h.attributes a ha).grows hgrows }

/-- Code with as many labels and the same handlers is as readable as its instructions and its
attributes are. -/
theorem IsReadable.of_size (hread : code.IsReadable pool)
    (hinstructions : Assembled.IsReadable new.instructions)
    (hshort : endOf 0 new.instructions.toList ≤ 65535)
    (hsize : new.instructions.size = code.instructions.size)
    (hhandlers : new.handlers = code.handlers)
    (hattributes : ∀ a ∈ new.attributes, CodeAttribute.IsReadable pool new.instructions a)
    (hattributes_le : new.attributes.length ≤ 65535) : new.IsReadable pool where
  instructions := hinstructions
  nonempty := by
    intro hnil
    rw [hnil] at hsize
    exact hread.nonempty (Array.eq_empty_of_size_eq_zero hsize.symm)
  short := hshort
  handlers := by
    rw [hhandlers]
    intro handler hmem
    have hhandler := hread.handlers handler hmem
    rwa [Handler.IsReadable, hsize]
  handlers_le := hhandlers ▸ hread.handlers_le
  attributes := hattributes
  attributes_le := hattributes_le

/-- The offsets of code that has not moved. -/
theorem offsetsOf_of_unmoved {code new : Array Instruction}
    (hshort : endOf 0 code.toList ≤ 65535) (h : layout new = layout code) :
    offsetsOf new = offsetsOf code := by
  rw [layout_eq_ok_iff.mpr ⟨hshort, rfl⟩] at h
  exact (layout_eq_ok_iff.mp h).2.symm

/-- Loading other texts leaves instructions readable. -/
theorem HasTexts.readable_instructions {texts : List LoadedText}
    (h : code.HasTexts texts pool new) (hread : Assembled.IsReadable code.instructions) :
    Assembled.IsReadable new.instructions := by
  cases h with
  | inPlace h _ => exact h.readable hread
  | moved h hsettled => exact hsettled.instructions ▸ h.readable hread

/-- Code with other texts can be read, if it could be read before and can be assembled, and if
there is room for a table of frames. -/
theorem HasTexts.readable {texts : List LoadedText} {written : Assembled}
    (h : code.HasTexts texts pool new) (hread : code.IsReadable pool)
    (hlt : code.attributes.length < 65535) (hassembled : new.assemble = .ok written) :
    new.IsReadable pool := by
  obtain ⟨hshort, -⟩ := ofCode_eq_ok_iff.mp hassembled
  have hinstructions := h.readable_instructions hread.instructions
  cases h with
  | inPlace h hunmoved =>
    have hoffsets := offsetsOf_of_unmoved hread.short hunmoved
    refine hread.of_size hinstructions hshort h.size
      h.handlers ?_ (h.attributes ▸ hread.attributes_le)
    rw [h.attributes]
    intro a ha
    obtain ⟨name, hname, hbody⟩ := hread.attributes a ha
    refine ⟨name, hname, hbody.of_size h.size fun bytes hraw => ?_⟩
    rw [hraw] at hbody
    rwa [hoffsets]
  | @moved repointed settled h hsettled =>
    have hsize : new.instructions.size = code.instructions.size :=
      hsettled.instructions ▸ h.size
    refine hread.of_size hinstructions hshort hsize
      (hsettled.handlers.trans h.handlers) ?_ ?_
    · intro a ha
      rcases hsettled.attributes a ha with ⟨hmem, hfresh⟩ | ⟨table, hbody, hname⟩
      · obtain ⟨name, hname, hbody⟩ := hread.attributes a (h.attributes ▸ hmem)
        exact ⟨name, hname, hbody.of_size hsize fun bytes hraw =>
          CodeAttribute.bodyOf_of_not_stale hname hraw hfresh⟩
      · refine ⟨CodeAttribute.frameTable, text_eq_ok_iff.mpr (text?_eq_some_iff.mp hname), ?_⟩
        rw [hbody]
        rfl
    · have hle := hsettled.length_le
      rw [h.attributes] at hle
      omega

end Code

/-! ## Methods -/

namespace MethodAttribute

variable {a : Attribute MethodAttributeBody}

theorem IsReadable.grows (h : IsReadable pool a) (hgrows : pool.Grows grown) :
    IsReadable grown a := by
  obtain ⟨name, hname, hbody⟩ := h
  refine ⟨name, hgrows.text hname, ?_⟩
  cases hcase : a.body with
  | code code =>
    rw [hcase] at hbody
    exact ⟨hbody.1, hbody.2.grows hgrows⟩
  | raw bytes =>
    rw [hcase] at hbody
    exact hbody

end MethodAttribute

/-- Is there room for one more attribute in all code of the method? -/
def Method.HasRoom (method : Method) : Prop :=
  ∀ a ∈ method.attributes, ∀ code, a.body = .code code → code.attributes.length < 65535

theorem Method.IsRecoded.readable {method new : Method} (h : method.IsRecoded pool new)
    (hread : ∀ a ∈ method.attributes, MethodAttribute.IsReadable pool a) (hroom : method.HasRoom) :
    ∀ a ∈ new.attributes, MethodAttribute.IsReadable pool a := by
  cases h with
  | kept => exact hread
  | @recoded front back name code newCode texts hcode htexts hassembled =>
    have hmem : ⟨name, .code code⟩ ∈ method.attributes := by
      rw [hcode]
      exact List.mem_append_right _ List.mem_cons_self
    intro a ha
    rcases List.mem_append.mp ha with ha | ha
    · exact hread a (hcode ▸ List.mem_append_left _ ha)
    rcases List.mem_cons.mp ha with rfl | ha
    · obtain ⟨text, htext, hname, hcodeRead⟩ := hread _ hmem
      obtain ⟨written, hwritten⟩ := hassembled
      exact ⟨text, htext, hname, htexts.readable hcodeRead (hroom _ hmem code rfl) hwritten⟩
    · exact hread a (hcode ▸ List.mem_append_right _ (List.mem_cons_of_mem _ ha))

/-! ## Classes -/

namespace ClassFile

variable {c : ClassFile}

theorem IsClass.grows {index : PoolIndex} (h : IsClass pool index) (hgrows : pool.Grows grown) :
    IsClass grown index :=
  let ⟨name, hname⟩ := h
  ⟨name, hgrows.get? hname⟩

/-- A class that can be read can still be read when it is rewritten. -/
theorem IsReadable.rewrite {rules : Rules} {hierarchy : Hierarchy} {draws : Draws}
    {done : RewrittenClass} (hread : c.IsReadable) (hroom : ∀ method ∈ c.methods, method.HasRoom)
    (h : (c.rewrite rules hierarchy draws).outcome = .ok done) : done.classFile.IsReadable := by
  obtain ⟨hrest, hlen, name, stage, -, hfirst, hlast, hgrows, hsteps⟩ := rewrite_stages h
  have hbefore (k : Nat) (hk : k ≤ c.methods.length) : c.pool.Grows (stage k).pool :=
    (grows_between hfirst hlast hgrows hk).1
  have hafter (k : Nat) (hk : k ≤ c.methods.length) :
      (stage k).pool.Grows done.classFile.pool :=
    (grows_between hfirst hlast hgrows hk).2
  have hpool := (hbefore 0 (Nat.zero_le _)).trans (hafter 0 (Nat.zero_le _))
  have hmethods : ∀ new ∈ done.classFile.methods, ∀ a ∈ new.attributes,
      MethodAttribute.IsReadable done.classFile.pool a := by
    intro new hnew a ha
    obtain ⟨k, hk⟩ := List.mem_iff_getElem?.mp hnew
    have hlt : k < c.methods.length := hlen ▸ (List.getElem?_eq_some_iff.mp hk).1
    have hmem := List.getElem_mem hlt
    obtain ⟨new', hnew', -, hrecodes⟩ := hsteps k _ (List.getElem?_eq_getElem hlt)
    obtain rfl := Option.some.inj (hk.symm.trans hnew')
    have hattributes : ∀ b ∈ c.methods[k].attributes,
        MethodAttribute.IsReadable (stage (k + 1)).pool b :=
      fun b hb => (hread.methods _ hmem b hb).grows (hbefore (k + 1) hlt)
    have hreadable := hrecodes.isRecoded.readable hattributes (hroom _ hmem)
    exact (hreadable a ha).grows (hafter (k + 1) hlt)
  rw [hrest]
  exact {
    pool := hpool.isReadable hread.pool
    thisClass := hread.thisClass.grows hpool
    superClass := fun index hindex =>
      let ⟨hne, hclass⟩ := hread.superClass index hindex
      ⟨hne, hclass.grows hpool⟩
    interfaces := fun index hindex => (hread.interfaces index hindex).grows hpool
    fields := hread.fields
    methods := hmethods
    attributes := hread.attributes }

end ClassFile

end ClassText
