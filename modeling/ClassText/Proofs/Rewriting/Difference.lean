import ClassText.Proofs.ClassFile.Spelling
import ClassText.Proofs.Rewriting.Written

/-!
# A class that was changed is written to other bytes

When the work on a class reports a change, the bytes of the class are not those
it was read from (`toBytes_ne_of_rewrite`). Reading them again is no way to see
that: a table of frames can leave so many attributes behind, or so long ones,
that what is written cannot be read. But both class files are the same up to the
first instruction that loads another text. So `Tells` compares what is read from
some bytes with what is written to the same bytes, one part after the other.
-/

namespace ClassText

open ByteReader Bytes ConstantPool

variable {used bytes : Bytes} {pool : ConstantPool}

/-- Of two values that are related, one that was read and one that was written, the bytes tell
whether they are equal. Whatever comes behind these bytes is not lost. -/
def Tells {α : Type} (item : ByteReader α) (write : α → Written) (R : α → α → Prop) : Prop :=
  ∀ (a b : α) (part part' rest rest' : Bytes), item.Takes part a → write b = .ok part' → R a b →
    part ++ rest = part' ++ rest' → a = b ∧ rest = rest'

namespace Tells

variable {α : Type} {item : ByteReader α} {write : α → Written} {R : α → α → Prop}

theorem parts (h : Tells item write R) :
    ∀ {as bs : List α} {parts parts' : List Bytes} {rest rest' : Bytes},
      List.Forall₂ item.Takes parts as → List.Forall₂ (fun b part => write b = .ok part) bs parts' →
        List.Forall₂ R as bs → parts.flatten ++ rest = parts'.flatten ++ rest' →
          as = bs ∧ rest = rest'
  | _, _, _, _, _, _, .nil, .nil, .nil, heq => ⟨rfl, heq⟩
  | _, _, _, _, _, _, .cons hread hreads, .cons hwrite hwrites, .cons hr hrs, heq => by
    rw [List.flatten_cons, List.flatten_cons, List.append_assoc, List.append_assoc] at heq
    obtain ⟨rfl, hrest⟩ := h _ _ _ _ _ _ hread hwrite hr heq
    obtain ⟨rfl, hrest⟩ := parts h hreads hwrites hrs hrest
    exact ⟨rfl, hrest⟩

theorem ofCounted (h : Tells item write R) :
    Tells (counted item) (Written.counted write) (List.Forall₂ R) := by
  intro as bs used used' rest rest' hread hwrite hall heq
  obtain ⟨parts, hparts, -, rfl⟩ := takes_counted.mp hread
  obtain ⟨-, parts', hparts', rfl⟩ := Written.counted_eq_ok_iff.mp hwrite
  rw [hall.length_eq, List.append_assoc, List.append_assoc] at heq
  exact h.parts hparts hparts' hall (List.append_cancel_left heq)

end Tells

/-! ## Attributes of methods -/

/-- The attributes are equal, or both hold code, with different instructions. -/
def MethodAttribute.IsApart (a b : Attribute MethodAttributeBody) : Prop :=
  a = b ∨ ∃ code new, a = ⟨b.name, .code code⟩ ∧ b.body = .code new ∧
    Assembled.IsReadable new.instructions ∧ code.instructions ≠ new.instructions

/-- Code with different instructions is not found in the same bytes. -/
theorem Code.instructions_eq_of_bytes {code new : Code} {part part' rest rest' : Bytes}
    (hread : (Code.read pool).Takes part code) (hwrite : new.write = .ok part')
    (hnew : Assembled.IsReadable new.instructions) (heq : part ++ rest = part' ++ rest') :
    code.instructions = new.instructions := by
  obtain ⟨insns, -, more, hle, hdecoded, -, rfl, -⟩ := Code.exists_write hread
  obtain ⟨offsets, insns', attributes, hcode, -, rfl⟩ := Code.write_eq_ok_iff.mp hwrite
  obtain ⟨hend, -⟩ := Assembled.ofCode_eq_ok_iff.mp hcode
  have hle' : insns'.length ≤ 65535 := Assembled.length_of_ofCode hnew hcode ▸ hend
  have hfront := Code.takes_spelledInstructions hle code.maxStack code.maxLocals
  have hfront' := Code.takes_spelledInstructions hle' new.maxStack new.maxLocals
  simp only [List.append_assoc] at heq hfront hfront'
  obtain ⟨-, rfl, -⟩ := hfront.unique hfront' (by simpa only [List.append_assoc] using heq)
  exact congrArg Decoded.instructions
    (Except.ok.inj (hdecoded.symm.trans (Assembled.ofBytes_of_ofCode hnew hcode)))

theorem MethodAttribute.tells (pool : ConstantPool) :
    Tells (Attribute.read (MethodAttributeBody.ofBytes pool))
      (Attribute.write MethodAttributeBody.write) MethodAttribute.IsApart := by
  rintro a b part part' rest rest' hread hwrite (rfl | ⟨code, new, rfl, hbody, hnew, hne⟩) heq
  · obtain ⟨bytes, hlen, hbody, rfl⟩ := Attribute.takes_read.mp hread
    obtain ⟨⟨hreadable, hfits, hreread⟩, -⟩ := ofBytes_spec a bytes hlen hbody
    have hagain := (comesBack hreadable hfits).takes hwrite
    rw [Attribute.mapBody_eq_self hreread] at hagain
    obtain ⟨-, -, hrest⟩ := hread.unique hagain heq
    exact ⟨rfl, hrest⟩
  · obtain ⟨bytes, hlen, hcode, rfl⟩ := Attribute.takes_read.mp hread
    obtain ⟨bytes', hbytes', rfl⟩ := Attribute.write_eq_ok_iff.mp hwrite
    simp only [List.append_assoc, Written.block] at heq
    have hname := (takes_word16.mpr rfl).unique (takes_word16.mpr rfl) heq
    have hlength := (takes_word32.mpr rfl).unique (takes_word32.mpr rfl) hname.2.2
    obtain ⟨text, hname, hcode⟩ := Success.bind_eq_ok.mp hcode
    split at hcode
    · obtain ⟨read, hread, hcode⟩ := Success.bind_eq_ok.mp hcode
      cases hcode
      rw [hbody] at hbytes'
      exact (hne (Code.instructions_eq_of_bytes (codeOfBytes_eq_ok_iff.mp hread) hbytes' hnew
        hlength.2.2)).elim
    · cases hcode

/-- A member is told by its attributes, if nothing else of it has changed. -/
theorem Tells.ofMember {β : Type} {body : PoolIndex → Bytes → Except ClassError β}
    {write : β → Written} {R : Attribute β → Attribute β → Prop}
    (h : Tells (Attribute.read body) (Attribute.write write) R) :
    Tells (Member.read body) (Member.write write) fun m n =>
      n = { m with attributes := n.attributes } ∧ List.Forall₂ R m.attributes n.attributes := by
  rintro m n part part' rest rest' hread hwrite ⟨hn, hall⟩ heq
  obtain ⟨_, _, flags, rfl, hflags, h₁⟩ := takes_bind.mp hread
  obtain ⟨_, _, name, rfl, hname, h₂⟩ := takes_bind.mp h₁
  obtain ⟨_, _, descriptor, rfl, hdescriptor, h₃⟩ := takes_bind.mp h₂
  obtain ⟨attributes, hattributes, rfl⟩ := takes_map.mp h₃
  obtain ⟨written, hwritten, hjoined⟩ := Success.bind_eq_ok.mp hwrite
  obtain rfl := Except.ok.inj hjoined
  rw [takes_word16.mp hflags, takes_word16.mp hname, takes_word16.mp hdescriptor, hn] at heq
  simp only [List.append_assoc, List.append_cancel_left_eq] at heq
  obtain ⟨hsame, hrest⟩ := h.ofCounted _ _ _ _ _ _ hattributes hwritten hall heq
  exact ⟨by rw [hn, ← hsame], hrest⟩

/-! ## Methods that were changed -/

/-- A text that is loaded instead of another one is another one. -/
theorem Instruction.loadedText?_of_newText? {insn : Instruction} {rewrite? : Option Rewrite}
    {text : String} (h : insn.newText? pool rewrite? = some text) :
    ∃ before, insn.loadedText? pool = some before ∧ before ≠ text := by
  unfold newText? at h
  split at h
  · next before rewrite hbefore =>
    split at h
    · cases h
    · next hne =>
      obtain rfl := Option.some.inj h
      exact ⟨before, hbefore, Ne.symm hne⟩
  · cases h

/-- Code in which an instruction has a new text has other instructions. -/
theorem Code.IsSubstituted.instructions_ne {code new : Code} {rewrites : List (Option Rewrite)}
    {grown : ConstantPool} (h : code.IsSubstituted new rewrites pool grown)
    (hgrows : pool.Grows grown) {i : Label} {insn : Instruction} {rewrite? : Option Rewrite}
    {text : String} (hinsn : code.instructions[i]? = some insn)
    (hrewrite : rewrites[i]? = some rewrite?) (hnew : insn.newText? pool rewrite? = some text) :
    code.instructions ≠ new.instructions := by
  intro heq
  obtain ⟨index, wide, hload, htext⟩ := h.loads hinsn hrewrite hnew
  rw [← heq, hinsn] at hload
  obtain rfl := Option.some.inj hload
  obtain ⟨before, hbefore, hne⟩ := Instruction.loadedText?_of_newText? hnew
  have hsame : pool.stringText? index = some before := hbefore
  exact hne (Option.some.inj ((hgrows.stringText? hsame).symm.trans htext))

/-- There is no new code without a text that has changed. -/
theorem Code.changed_ne_nil_of_withTexts? {code new : Code} {texts : List LoadedText}
    {version : Version} {head : MethodHead} {hierarchy : Hierarchy} {grown : ConstantPool}
    (h : code.withTexts? texts version head hierarchy pool = (.ok (some new), grown)) :
    texts.filter (·.isChanged) ≠ [] := by
  intro hnil
  have hnone : code.withTexts? texts version head hierarchy pool = (.ok none, pool) := by
    unfold Code.withTexts?
    rw [hnil]
    rfl
  cases hnone.symm.trans h

namespace ClassContext

/-- What the work on a method makes of its code are other instructions. -/
theorem instructions_ne_of_withTexts? {ctx : ClassContext} {code new : Code} {draws : Draws}
    {head : MethodHead} {grown : ConstantPool}
    (h : code.withTexts? (code.loadedTexts ctx.rules pool draws).1 ctx.version head ctx.hierarchy
      pool = (.ok (some new), grown)) : code.instructions ≠ new.instructions := by
  obtain ⟨hgrows, htexts, -⟩ := (ensures_withTexts? code
    (nodup_label_loadedTexts code ctx.rules pool draws) ctx.version head ctx.hierarchy
    pool).of_run h
  obtain ⟨t, ht⟩ := List.exists_mem_of_ne_nil _ (Code.changed_ne_nil_of_withTexts? h)
  obtain ⟨hmem, hchanged⟩ := List.mem_filter.mp ht
  obtain ⟨insn, rewrite?, hinsn, hrewrite, hfound⟩ := mem_loadedTexts.mp hmem
  obtain ⟨insn', draws', hinsn', rfl⟩ := getElem?_rewrittenTexts hrewrite
  obtain rfl := Option.some.inj (hinsn'.symm.trans hinsn)
  exact htexts.isSubstituted.instructions_ne hgrows hinsn hrewrite
    ((newText?_eq_some_iff t.label).mpr ⟨t, hfound, hchanged, rfl⟩)

/-- A method that was worked on differs from the method as it was in its code at most, and there in
the instructions. -/
theorem Recodes.isApart {ctx : ClassContext} {before after : ClassProgress} {method new : Method}
    (h : ctx.Recodes before after method new)
    (hread : ∀ a ∈ method.attributes, MethodAttribute.IsReadable pool a) :
    new = { method with attributes := new.attributes } ∧
      List.Forall₂ MethodAttribute.IsApart method.attributes new.attributes ∧
      (new = method → after.report.changed = before.report.changed) := by
  have hsame (attributes : List (Attribute MethodAttributeBody)) :
      List.Forall₂ MethodAttribute.IsApart attributes attributes :=
    List.forall₂_same.mpr fun _ _ => .inl rfl
  cases h with
  | kept hchanged => exact ⟨rfl, hsame _, fun _ => hchanged⟩
  | @replaced code newCode name descriptor hcode hname hdescriptor hrun =>
    have hne := instructions_ne_of_withTexts? hrun
    obtain ⟨-, htexts, -⟩ := (ensures_withTexts? code
      (nodup_label_loadedTexts code ctx.rules before.pool before.draws) ctx.version
      ⟨ctx.className, name, descriptor, method.isStatic⟩ ctx.hierarchy before.pool).of_run hrun
    obtain ⟨front, codeName, back, hattrs, -, hset⟩ :=
      Method.attributes_of_code? method.attributes hcode
    obtain ⟨-, -, -, hcodeRead⟩ := hread ⟨codeName, .code code⟩ (by rw [hattrs]; simp)
    have hnew := htexts.readable_instructions hcodeRead.instructions
    rw [Method.setCode, hset newCode]
    refine ⟨rfl, ?_, fun heq => ?_⟩
    · rw [hattrs]
      exact List.rel_append (hsame front) (.cons (.inr ⟨code, newCode, rfl, rfl, hnew, hne⟩)
        (hsame back))
    · have hattributes := congrArg Member.attributes heq
      rw [hattrs] at hattributes
      obtain ⟨hbody, -⟩ := List.cons.inj (List.append_cancel_left hattributes)
      cases hbody
      exact (hne rfl).elim

end ClassContext

/-! ## Classes that were changed -/

namespace ClassFile

variable {c : ClassFile}

/-- A change that was reported was made to one of the methods. -/
theorem methods_ne_of_changed {rules : Rules} {hierarchy : Hierarchy} {draws : Draws}
    {done : RewrittenClass} (hread : c.IsReadable)
    (h : (c.rewrite rules hierarchy draws).outcome = .ok done)
    (hchanged : done.report.changed = true) : c.methods ≠ done.classFile.methods := by
  obtain ⟨-, -, name, stage, -, hfirst, hlast, -, hsteps⟩ := rewrite_stages h
  intro hsame
  have hreport : ∀ k ≤ c.methods.length, (stage k).report.changed = false := by
    intro k hk
    induction k with
    | zero => rw [hfirst]
    | succ k ih =>
      obtain ⟨new, hnew, -, hrecodes⟩ := hsteps k _ (List.getElem?_eq_getElem hk)
      rw [← hsame, List.getElem?_eq_getElem hk] at hnew
      obtain ⟨-, -, hkept⟩ := hrecodes.isApart (hread.methods _ (List.getElem_mem hk))
      rw [hkept (Option.some.inj hnew).symm, ih (Nat.le_of_lt hk)]
  have hfalse := hreport _ (Nat.le_refl _)
  rw [hlast] at hfalse
  cases hfalse.symm.trans hchanged

/-- A class that was rewritten is told by its methods. -/
theorem methods_eq_of_bytes {other : ClassFile} (hread : ofBytes bytes = .ok c)
    (hother : other = { c with pool := other.pool, methods := other.methods })
    (hgrows : c.pool.Grows other.pool)
    (hmethods : List.Forall₂ (fun m n => n = { m with attributes := n.attributes } ∧
      List.Forall₂ MethodAttribute.IsApart m.attributes n.attributes) c.methods other.methods)
    (hwrite : other.toBytes = .ok bytes) : c.methods = other.methods := by
  obtain ⟨hreadable, -⟩ := toBytes_of_ofBytes hread
  obtain ⟨body, rfl, hbody⟩ := ofBytes_eq_ok_iff.mp hread
  obtain ⟨s, hs, rfl⟩ := takes_readBody.mp hbody
  obtain ⟨s', hs', heq⟩ := write_eq_ok_iff.mp (Success.mapError_eq_ok.mp hwrite)
  have hpool := ConstantPool.takes_of_write (hgrows.isReadable hreadable.pool) hs'.pool
  have hinterfaces := takes_counted_word16 hs'.interfaces
  have hfields : (counted (Member.read rawBody)).Takes s'.fields _ :=
    Member.takes_counted_of_write hs'.fields fun field hfield a ha =>
      (hreadable.fields field (by rw [hother] at hfield; exact hfield) a ha).comesBack
  rw [hother] at hinterfaces hfields heq
  rw [Member.map_mapBodies_eq_self fun _ _ _ _ => rfl] at hfields
  -- up to the methods both class files are read in the same way
  simp only [Sections.joined, List.append_cancel_left_eq] at heq
  obtain ⟨-, -, h₁⟩ := hs.pool.unique hpool heq
  simp only [List.append_cancel_left_eq] at h₁
  obtain ⟨-, -, h₂⟩ := hs.interfaces.unique hinterfaces h₁
  obtain ⟨-, -, h₃⟩ := hs.fields.unique hfields h₂
  exact ((MethodAttribute.tells c.pool).ofMember.ofCounted _ _ _ _ _ _ hs.methods hs'.methods
    hmethods h₃).1

/-- If the work on a class reports a change, the class is written to other bytes than those it was
read from. -/
theorem toBytes_ne_of_rewrite {bytes' : Bytes} {rules : Rules} {hierarchy : Hierarchy}
    {draws : Draws} {done : RewrittenClass} (hread : ofBytes bytes = .ok c)
    (h : (c.rewrite rules hierarchy draws).outcome = .ok done)
    (hchanged : done.report.changed = true) (hwrite : done.classFile.toBytes = .ok bytes') :
    bytes' ≠ bytes := by
  rintro rfl
  obtain ⟨hreadable, -⟩ := toBytes_of_ofBytes hread
  obtain ⟨hrest, hlen, name, stage, -, hfirst, hlast, hgrows, hsteps⟩ := rewrite_stages h
  have hpool : c.pool.Grows done.classFile.pool :=
    (grows_between hfirst hlast hgrows (Nat.zero_le _)).1.trans
      (grows_between hfirst hlast hgrows (Nat.zero_le _)).2
  refine methods_ne_of_changed hreadable h hchanged
    (methods_eq_of_bytes hread hrest hpool ?_ hwrite)
  refine List.forall₂_iff_get.mpr ⟨hlen.symm, fun k hk hk' => ?_⟩
  obtain ⟨new, hnew, -, hrecodes⟩ := hsteps k _ (List.getElem?_eq_getElem hk)
  obtain ⟨hmember, hattributes, -⟩ :=
    hrecodes.isApart (hreadable.methods _ (List.getElem_mem hk))
  rw [List.getElem?_eq_getElem hk'] at hnew
  rw [List.get_eq_getElem, List.get_eq_getElem, Option.some.inj hnew]
  exact ⟨hmember, hattributes⟩

end ClassFile

end ClassText
