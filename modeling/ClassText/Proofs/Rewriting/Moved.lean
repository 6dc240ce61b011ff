import ClassText.Proofs.Rewriting.Unmoved

/-!
# No offset of an old layout survives

Attributes of code that were not understood are kept as bytes, and some of them
hold offsets. When the new texts of a method make its instructions move, these
attributes are left out, and the table of frames is the one that was derived for
the new layout, if there is one (`attributes_of_rewrite`).

Attributes are told by the text of their name in one place and by its index in
another, while a pool can hold the text `StackMapTable` more than once and code
can have several tables of that name. The two ways agree on what is left. The
names of attributes that were read are texts, and they stay so while the pool
grows (`isStale_grows`); and what was read under the name of a table of frames is
bytes (`isStale_of_frameTable`), so an old table that the index does not find is
left out for its bytes.
-/

namespace ClassText

open ConstantPool PoolChange

/-! ## Attributes that hold offsets in bytes -/

namespace CodeAttribute

variable {pool grown : ConstantPool} {a : CodeAttribute}

theorem isStale_grows (hgrows : pool.Grows grown) (hname : (pool.text? a.name).isSome) :
    isStale grown a = isStale pool a := by
  obtain ⟨text, htext⟩ := Option.isSome_iff_exists.mp hname
  rw [isStale, isStale, hgrows.text? htext, htext]

/-- Nothing that is read under the name of tables of frames is understood. -/
theorem isStale_of_frameTable {code : Array Instruction} (hread : IsReadable pool code a)
    (hplain : ∀ table, a.body ≠ .frames table) (hname : pool.text? a.name = some frameTable) :
    isStale pool a = true := by
  obtain ⟨name, hname', hbody⟩ := hread
  obtain rfl : frameTable = name :=
    Option.some.inj (hname.symm.trans (text?_eq_some_iff.mpr (text_eq_ok_iff.mp hname')))
  cases hcase : a.body with
  | raw bytes =>
    simp only [isStale, hcase, hname]
    decide
  | frames table => exact (hplain table hcase).elim
  | _ =>
    rw [hcase] at hbody
    exact absurd hbody.1 (by decide)

end CodeAttribute

namespace Code

variable {code framed new : Code} {pool grown final after : ConstantPool}
  {name : PoolIndex} {table : FrameTable} {derived : List CodeAttribute}

/-- Code that comes back as it was has no table of frames but in bytes. -/
theorem ne_frames_of_reread (hreread : code.reread = code) {bytes : Bytes}
    (hwrite : code.write = .ok bytes) {a : CodeAttribute} (ha : a ∈ code.attributes) :
    ∀ table, a.body ≠ .frames table := by
  intro table hbody
  have hattributes : code.attributes.map CodeAttribute.reread = code.attributes :=
    congrArg attributes hreread
  have hsame := List.map_inj_left.mp (hattributes.trans (List.map_id _).symm) a ha
  have hbodies : a.body.reread = a.body := congrArg Attribute.body hsame
  obtain ⟨_, _, parts, -, hparts, -⟩ := write_eq_ok_iff.mp hwrite
  obtain ⟨part, hpart⟩ := Success.exists_of_mem_right hparts.flip a ha
  obtain ⟨written, hwritten, -⟩ := Attribute.write_eq_ok_iff.mp hpart
  rw [hbody] at hwritten hbodies
  rw [CodeAttributeBody.reread, show FrameTable.write table = .ok written from hwritten]
    at hbodies
  cases hbodies

/-! ## What is left of code that has moved -/

/-- Do the names of attributes resolve, and are all tables of frames kept as bytes? -/
structure HasPlainTables (code : Code) (pool : ConstantPool) : Prop where
  named : code.IsNamed pool
  stale : ∀ a ∈ code.attributes, pool.text? a.name = some CodeAttribute.frameTable →
    CodeAttribute.isStale pool a = true

/-- The second code is what is left of the first one after its instructions have moved, with
derived frames behind it. -/
structure IsCleared (code new : Code) (pool final : ConstantPool)
    (derived : List CodeAttribute) : Prop where
  /-- Tables of lines and of variables are kept with their labels, and so are bytes under a name
  that announces no offsets, all of them in order. -/
  attributes : new.attributes =
    code.attributes.filter (fun a => !CodeAttribute.isStale pool a) ++ derived
  /-- No bytes are left under a name that announces offsets. -/
  fresh : ∀ a ∈ new.attributes, CodeAttribute.isStale final a = false
  /-- There is no other attribute with the name of tables of frames. -/
  tables : new.attributes.filter
    (fun a => final.text? a.name == some CodeAttribute.frameTable) = derived
  length_le : derived.length ≤ 1

/-- The attributes are a table of frames that was derived for the instructions of the second code,
or nothing if the table is empty, and the second code is what is left when they are in place. -/
def HasDerived (code new : Code) (method : MethodHead) (hierarchy : Hierarchy)
    (pool final : ConstantPool) (derived : List CodeAttribute) : Prop :=
  ∃ before framed after name table, pool.Grows before ∧ after.Grows final ∧
    CodeChange.deriveFrames method hierarchy
      ({ code with instructions := new.instructions }, before) = (.ok (), framed, after) ∧
    framed.attributes = code.attributes.filter (·.name != name) ++ derived ∧
    derived = frameAttributes name table ∧
    new = framed.dropStale after

theorem HasPlainTables.isCleared (h : code.HasPlainTables pool) (hgrows : pool.Grows final)
    (hattributes : new.attributes =
      code.attributes.filter (fun a => !CodeAttribute.isStale pool a) ++ derived)
    (hderived : ∀ a ∈ derived, (∃ table, a.body = .frames table) ∧
      final.text? a.name = some CodeAttribute.frameTable)
    (hlength : derived.length ≤ 1) : code.IsCleared new pool final derived where
  attributes := hattributes
  fresh := by
    intro a ha
    rw [hattributes] at ha
    rcases List.mem_append.mp ha with ha | ha
    · obtain ⟨hmem, hfresh⟩ := List.mem_filter.mp ha
      rw [CodeAttribute.isStale_grows hgrows (h.named a hmem)]
      simpa using hfresh
    · obtain ⟨⟨table, hbody⟩, -⟩ := hderived a ha
      rw [CodeAttribute.isStale, hbody]
  tables := by
    have hkept : (code.attributes.filter (fun a => !CodeAttribute.isStale pool a)).filter
        (fun a => final.text? a.name == some CodeAttribute.frameTable) = [] := by
      refine List.filter_eq_nil_iff.mpr fun a ha hname => ?_
      obtain ⟨hmem, hfresh⟩ := List.mem_filter.mp ha
      obtain ⟨text, htext⟩ := Option.isSome_iff_exists.mp (h.named a hmem)
      rw [hgrows.text? htext, beq_iff_eq] at hname
      rw [h.stale a hmem (htext.trans hname)] at hfresh
      cases hfresh
    rw [hattributes, List.filter_append, hkept, List.nil_append, List.filter_eq_self]
    exact fun a ha => by rw [(hderived a ha).2, beq_self_eq_true]
  length_le := hlength

/-- Leaving out what has the index of a name leaves out nothing that is kept for its body. -/
theorem HasPlainTables.attributes_dropStale (h : code.HasPlainTables pool)
    (hgrows : pool.Grows grown) (hname : grown.text? name = some CodeAttribute.frameTable)
    (hframed : framed.attributes =
      code.attributes.filter (·.name != name) ++ frameAttributes name table) :
    (framed.dropStale grown).attributes =
      code.attributes.filter (fun a => !CodeAttribute.isStale pool a) ++
        frameAttributes name table := by
  have hold : (code.attributes.filter (·.name != name)).filter
      (fun a => !CodeAttribute.isStale grown a) =
        code.attributes.filter (fun a => !CodeAttribute.isStale pool a) := by
    rw [List.filter_filter]
    refine List.filter_congr fun a ha => ?_
    rw [CodeAttribute.isStale_grows hgrows (h.named a ha)]
    cases hfresh : CodeAttribute.isStale pool a with
    | true => rfl
    | false =>
      rw [Bool.not_false, Bool.true_and, bne_iff_ne]
      rintro rfl
      obtain ⟨text, htext⟩ := Option.isSome_iff_exists.mp (h.named a ha)
      have htable := htext.trans ((hgrows.text? htext).symm.trans hname)
      exact Bool.false_ne_true (hfresh.symm.trans (h.stale a ha htable))
  have hnew : (frameAttributes name table).filter (fun a => !CodeAttribute.isStale grown a) =
      frameAttributes name table := by
    refine List.filter_eq_self.mpr fun a ha => ?_
    rw [mem_frameAttributes ha]
    rfl
  rw [dropStale, hframed, List.filter_append, hold, hnew]

/-! ## How the new code comes about -/

variable {method : MethodHead} {hierarchy : Hierarchy}

theorem deriveFrames_of_settleMoved
    (h : code.settleMoved true method hierarchy pool = (.ok new, after)) :
    ∃ framed, CodeChange.deriveFrames method hierarchy (code, pool) = (.ok (), framed, after) ∧
      new = framed.dropStale after := by
  obtain ⟨framed, grown, hrun, h⟩ := run_bind_eq_ok h
  obtain ⟨hnew, rfl⟩ := Prod.mk.inj h
  exact ⟨framed, run_code_eq_ok.mp hrun, (Except.ok.inj hnew).symm⟩

theorem attributes_deriveFrames
    (h : CodeChange.deriveFrames method hierarchy (code, pool) = (.ok (), framed, after)) :
    pool.Grows after ∧ framed.instructions = code.instructions ∧
      ∃ name table, after.text? name = some CodeAttribute.frameTable ∧
        framed.attributes =
          code.attributes.filter (·.name != name) ++ frameAttributes name table := by
  obtain ⟨hgrows, analysis, name, table, rfl, hname⟩ :=
    (ensures_deriveFrames code method hierarchy pool).of_run (run_code_eq_ok.mpr h)
  exact ⟨hgrows, rfl, name, table, hname, attributes_withFrames ..⟩

/-- The last step of `withTexts?` changes nothing. -/
theorem assembled_eq_ok {settled : Code}
    (h : (do
      let _ ← PoolChange.ofExcept (settled.assemble.mapError .assembly)
      return some settled : PoolChange (Option Code)) pool = (.ok (some new), after)) :
    settled = new ∧ pool = after := by
  obtain ⟨_, _, hassemble, h⟩ := run_bind_eq_ok h
  obtain ⟨-, rfl⟩ := Prod.mk.inj hassemble
  obtain ⟨hnew, hpool⟩ := Prod.mk.inj h
  exact ⟨Option.some.inj (Except.ok.inj hnew), hpool⟩

/-- Code with new texts either stands where it stood, or it has settled. -/
theorem withTexts?_eq_ok {texts : List LoadedText} {version : Version}
    (h : code.withTexts? texts version method hierarchy pool = (.ok (some new), after)) :
    ∃ repointed p, (texts.filter (·.isChanged)).foldlM repoint code pool = (.ok repointed, p) ∧
      ((Assembled.layout repointed.instructions = Assembled.layout code.instructions ∧
          new = repointed) ∨
        (Assembled.layout repointed.instructions ≠ Assembled.layout code.instructions ∧
          repointed.settleMoved (version.needsFrames code pool) method hierarchy p =
            (.ok new, after))) := by
  obtain ⟨_, _, hget, h⟩ := run_bind_eq_ok h
  obtain ⟨hp, rfl⟩ := Prod.mk.inj hget
  obtain rfl := Except.ok.inj hp
  dsimp only at h
  split at h
  · cases (Prod.mk.inj h).1
  obtain ⟨repointed, p, hrepoint, h⟩ := run_bind_eq_ok h
  obtain ⟨offsets, _, hrun, h⟩ := run_bind_eq_ok h
  obtain ⟨hnew, rfl⟩ := Prod.mk.inj hrun
  obtain ⟨offsets', _, hrun, h⟩ := run_bind_eq_ok h
  obtain ⟨hold, rfl⟩ := Prod.mk.inj hrun
  refine ⟨repointed, p, hrepoint, ?_⟩
  rw [Success.mapError_eq_ok.mp hnew, Success.mapError_eq_ok.mp hold]
  split at h
  · next hmoved =>
    obtain ⟨settled, q, hsettle, h⟩ := run_bind_eq_ok h
    obtain ⟨rfl, rfl⟩ := assembled_eq_ok h
    exact .inr ⟨by simpa using hmoved, hsettle⟩
  · next hunmoved =>
    obtain ⟨rfl, -⟩ := assembled_eq_ok h
    exact .inl ⟨by simpa using hunmoved, rfl⟩

/-! ## What the new code keeps -/

variable {repointed : Code} {before : ConstantPool}

/-- Code that has settled keeps what holds no offsets in bytes, and gets the frames that were
derived for it, if it needs any. -/
theorem HasPlainTables.settled (h : code.HasPlainTables pool) (hgrows : pool.Grows before)
    (hfinal : after.Grows final)
    (hrest : repointed = { code with instructions := repointed.instructions })
    {needsFrames : Bool}
    (hrun : repointed.settleMoved needsFrames method hierarchy before = (.ok new, after)) :
    new.instructions = repointed.instructions ∧
      ∃ derived, code.IsCleared new pool final derived ∧
        (needsFrames = false → derived = []) ∧
        (needsFrames = true → code.HasDerived new method hierarchy pool final derived) := by
  have hattributes : repointed.attributes = code.attributes := by rw [hrest]
  cases needsFrames with
  | false =>
    obtain ⟨hnew, rfl⟩ := Prod.mk.inj hrun
    obtain rfl := Except.ok.inj hnew
    refine ⟨rfl, [], h.isCleared (hgrows.trans hfinal) ?_ (by simp) (Nat.zero_le _),
      fun _ => rfl, fun hneeds => (nomatch hneeds)⟩
    rw [List.append_nil, ← hattributes]
    refine List.filter_congr fun a ha => ?_
    rw [CodeAttribute.isStale_grows hgrows (h.named a (hattributes ▸ ha))]
  | true =>
    obtain ⟨framed, hderive, rfl⟩ := deriveFrames_of_settleMoved hrun
    obtain ⟨hgrows', hinstructions, name, table, hname, hframed⟩ :=
      attributes_deriveFrames hderive
    rw [hattributes] at hframed
    refine ⟨hinstructions, frameAttributes name table,
      h.isCleared (hgrows.trans (hgrows'.trans hfinal))
        (h.attributes_dropStale (hgrows.trans hgrows') hname hframed) ?_
        (length_frameAttributes_le name table),
      fun hneeds => (nomatch hneeds), fun _ => ?_⟩
    · intro a ha
      rw [mem_frameAttributes ha]
      exact ⟨⟨table, rfl⟩, hfinal.text? hname⟩
    · refine ⟨before, framed, after, name, table, hgrows, hfinal, ?_, hframed, rfl, rfl⟩
      rw [show (framed.dropStale after).instructions = repointed.instructions from hinstructions,
        ← hrest]
      exact hderive

/-- What becomes of code whose attributes were read when it gets new texts. -/
theorem HasPlainTables.replaced (h : code.HasPlainTables pool) (hgrows : pool.Grows before)
    (hfinal : after.Grows final) {texts : List LoadedText} (hnodup : (texts.map (·.label)).Nodup)
    {version : Version}
    (hrun : code.withTexts? texts version method hierarchy before = (.ok (some new), after)) :
    (Assembled.layout new.instructions = Assembled.layout code.instructions →
      new.attributes = code.attributes ∧ new.maxStack = code.maxStack ∧
        new.maxLocals = code.maxLocals) ∧
    (Assembled.layout new.instructions ≠ Assembled.layout code.instructions →
      ∃ derived, code.IsCleared new pool final derived ∧
        (version.needsFrames code pool = false → derived = []) ∧
        (version.needsFrames code pool = true →
          code.HasDerived new method hierarchy pool final derived)) := by
  obtain ⟨repointed, p, hrepoint, hcases⟩ := withTexts?_eq_ok hrun
  obtain ⟨hgrows', hrepointed⟩ := (ensures_foldlM_changed hnodup before).of_run hrepoint
  have hrest := hrepointed.rest
  have hneeds : version.needsFrames code before = version.needsFrames code pool := by
    rw [Version.needsFrames, Version.needsFrames, attribute?_grows hgrows h.named]
  rcases hcases with ⟨hunmoved, rfl⟩ | ⟨hmoved, hsettle⟩
  · refine ⟨fun _ => ?_, fun hmoved => (hmoved hunmoved).elim⟩
    rw [hrest]
    exact ⟨rfl, rfl, rfl⟩
  · rw [hneeds] at hsettle
    obtain ⟨hinstructions, hderived⟩ :=
      h.settled (hgrows.trans hgrows') hfinal hrest hsettle
    rw [hinstructions]
    exact ⟨fun hunmoved => (hmoved hunmoved).elim, fun _ => hderived⟩

end Code

/-! ## Classes -/

theorem Method.code?_setCode {method : Method} {code : Code} (h : method.code? = some code)
    (new : Code) : (method.setCode new).code? = some new := by
  obtain ⟨front, name, back, -, hfront, hset⟩ := Method.attributes_of_code? method.attributes h
  rw [Method.setCode, hset new, Method.code?, List.findSome?_append,
    List.findSome?_eq_none_iff.mpr, Option.none_or, List.findSome?_cons]
  intro a ha
  cases hbody : a.body with
  | code other => exact (hfront a ha other hbody).elim
  | raw bytes => rfl

namespace ClassFile

variable {bytes : Bytes} {c : ClassFile} {method : Method} {code : Code}

theorem hasPlainTables_code (hread : ofBytes bytes = .ok c) (hmethod : method ∈ c.methods)
    (hcode : method.code? = some code) : code.HasPlainTables c.pool := by
  obtain ⟨hreadable, hreread, written, hwritten⟩ := isReadable_code hread hmethod hcode
  refine ⟨isNamed_code hread hmethod hcode, fun a ha hname => ?_⟩
  exact CodeAttribute.isStale_of_frameTable (hreadable.attributes a ha)
    (Code.ne_frames_of_reread hreread hwritten ha) hname

/-- No offset of an old layout is left in a class that was read and rewritten. Code that has not
moved has the attributes and the limits that it had. Of code that has moved, every attribute is
kept but those that hold offsets in bytes, and behind them there is the table of frames that was
derived for the new instructions, if there have to be frames. -/
theorem attributes_of_rewrite {rules : Rules} {hierarchy : Hierarchy} {draws : Draws}
    {done : RewrittenClass} (hread : ofBytes bytes = .ok c)
    (h : (c.rewrite rules hierarchy draws).outcome = .ok done) {k : Nat}
    (hmethod : c.methods[k]? = some method) (hcode : method.code? = some code) :
    ∃ new newCode, done.classFile.methods[k]? = some new ∧ new.code? = some newCode ∧
      (Assembled.layout newCode.instructions = Assembled.layout code.instructions →
        newCode.attributes = code.attributes ∧ newCode.maxStack = code.maxStack ∧
          newCode.maxLocals = code.maxLocals) ∧
      (Assembled.layout newCode.instructions ≠ Assembled.layout code.instructions →
        ∃ derived, code.IsCleared newCode c.pool done.classFile.pool derived ∧
          (c.version.needsFrames code c.pool = false → derived = []) ∧
          (c.version.needsFrames code c.pool = true → ∃ className name descriptor,
            c.name = .ok className ∧ done.classFile.pool.text method.name = .ok name ∧
            done.classFile.pool.text method.descriptor = .ok descriptor ∧
            code.HasDerived newCode ⟨className, name, descriptor, method.isStatic⟩ hierarchy
              c.pool done.classFile.pool derived)) := by
  obtain ⟨-, -, className, stage, hname, hfirst, hlast, hgrows, hsteps⟩ := rewrite_stages h
  obtain ⟨new, hnew, -, hrecodes⟩ := hsteps k method hmethod
  have hk := (List.getElem?_eq_some_iff.mp hmethod).1
  obtain ⟨hbefore, hfound⟩ := grows_between hfirst hlast hgrows (Nat.le_of_lt hk)
  obtain ⟨-, hafter⟩ := grows_between hfirst hlast hgrows hk
  have hplain := hasPlainTables_code hread (List.mem_of_getElem? hmethod) hcode
  cases hrecodes with
  | kept =>
    exact ⟨method, code, hnew, hcode, fun _ => ⟨rfl, rfl, rfl⟩, fun hmoved => (hmoved rfl).elim⟩
  | @replaced code' newCode name descriptor hcode' hmethodName hdescriptor hrun =>
    obtain rfl := Option.some.inj (hcode'.symm.trans hcode)
    obtain ⟨hunmoved, hmoved⟩ := hplain.replaced hbefore hafter
      (nodup_label_loadedTexts ..) hrun
    refine ⟨_, newCode, hnew, Method.code?_setCode hcode newCode, hunmoved, fun hne => ?_⟩
    obtain ⟨derived, hcleared, hfalse, htrue⟩ := hmoved hne
    refine ⟨derived, hcleared, hfalse, fun hneeds => ?_⟩
    exact ⟨className, name, descriptor, hname, hfound.text hmethodName, hfound.text hdescriptor,
      htrue hneeds⟩

/-- A pool with so many constants that the next one gets the index 257. -/
def wideChoosingPool : ConstantPool := ⟨(choosingSlots 122).toArray, by decide +kernel⟩

theorem ofBytes_choosingBytes_wide :
    ofBytes (choosingBytes 122) = .ok (choosingClass wideChoosingPool) :=
  ofBytes_eq_ok_of_slots (by decide +kernel)

/-- The code that loads a string of that index, with a load that is one byte longer. -/
def movedCode : Code where
  maxStack := 1
  maxLocals := 1
  instructions := #[.slot Opcode.iload 0 .short, .branch Opcode.ifeq 4, .loadConstant 257 true,
    .simple Opcode.pop, .simple Opcode.returnVoid]
  sourceOffsets := #[0, 1, 4, 6, 7, 8]
  handlers := []
  attributes := [⟨9, .lines [⟨2, 3⟩]⟩, ⟨11, .raw [5]⟩, ⟨8, .frames [.same 8]⟩]

def movedMethod : Method := ⟨8, 3, 4, [⟨5, .code movedCode⟩]⟩

theorem outcome_rewrite_choosingClass :
    ∃ done, ((choosingClass wideChoosingPool).rewrite .chained ⟨[], []⟩ (.ofSeed 0)).outcome =
        .ok done ∧ done.classFile.methods[0]? = some movedMethod := by
  have h : (((choosingClass wideChoosingPool).rewrite .chained ⟨[], []⟩ (.ofSeed 0)).outcome.map
      (·.classFile.methods[0]?)).toOption = some (some movedMethod) := by
    decide +kernel
  cases hrun : ((choosingClass wideChoosingPool).rewrite .chained ⟨[], []⟩ (.ofSeed 0)).outcome with
  | error e =>
    rw [hrun] at h
    cases h
  | ok done =>
    rw [hrun] at h
    exact ⟨done, rfl, Option.some.inj h⟩

theorem attributes_of_rewrite_choosing :
    ofBytes (choosingBytes 122) = .ok (choosingClass wideChoosingPool) ∧
    ∃ done derived,
      ((choosingClass wideChoosingPool).rewrite .chained ⟨[], []⟩ (.ofSeed 0)).outcome =
        .ok done ∧
      done.classFile.methods[0]? = some movedMethod ∧
      Assembled.layout movedCode.instructions ≠ Assembled.layout choosingCode.instructions ∧
      choosingCode.IsCleared movedCode wideChoosingPool done.classFile.pool derived ∧
      ∃ head, choosingCode.HasDerived movedCode head ⟨[], []⟩ wideChoosingPool
        done.classFile.pool derived := by
  have hread := ofBytes_choosingBytes_wide
  have hlayout : Assembled.layout movedCode.instructions ≠
      Assembled.layout choosingCode.instructions := by decide
  obtain ⟨done, hdone, hfound⟩ := outcome_rewrite_choosingClass
  have hmethod : (choosingClass wideChoosingPool).methods[0]? = some choosingMethod := rfl
  obtain ⟨new, newCode, hnew, hnewCode, -, hmoved⟩ := attributes_of_rewrite hread hdone hmethod rfl
  obtain rfl := Option.some.inj (hfound.symm.trans hnew)
  obtain rfl : movedCode = newCode := Option.some.inj hnewCode
  obtain ⟨derived, hcleared, -, hneeds⟩ := hmoved hlayout
  obtain ⟨className, name, descriptor, -, -, -, hderived⟩ := hneeds (by decide +kernel)
  exact ⟨hread, done, derived, hdone, hfound, hlayout, hcleared, _, hderived⟩

end ClassFile

end ClassText
