import ClassText.Proofs.Rewriting.Repointing
import ClassText.Proofs.Success
import ClassText.Rewriting.Class

/-!
# Code that loads other texts

Rewriting code either leaves everything in its place or lets the code settle
again: `Code.HasTexts` tells the two apart, and `ensures_withTexts?` says that
the result is one of them and can be assembled. Either way the instructions do
what they did, but for the loads of those texts of which the rules made another
one (`Code.IsSubstituted`).
-/

namespace ClassText

open ConstantPool PoolChange

/-! ## Code with texts of its own -/

/-- The code after its new texts: either nothing has moved, or the code was settled. -/
inductive Code.HasTexts (code : Code) (texts : List LoadedText) (pool : ConstantPool) :
    Code → Prop
  | inPlace {repointed : Code} (h : code.IsRepointed repointed texts pool)
      (unmoved : Assembled.layout repointed.instructions =
        Assembled.layout code.instructions) : HasTexts code texts pool repointed
  | moved {repointed settled : Code} (h : code.IsRepointed repointed texts pool)
      (hsettled : repointed.IsSettled settled pool) : HasTexts code texts pool settled

/-- What `withTexts?` promises of its result. -/
def Code.WithTextsPost (code : Code) (texts : List LoadedText) (result : Option Code)
    (pool : ConstantPool) : Prop :=
  match result with
  | none => texts.filter (·.isChanged) = []
  | some new => code.HasTexts (texts.filter (·.isChanged)) pool new ∧
      ∃ written, new.assemble = .ok written

theorem ensures_layout (code : Code) (pool : ConstantPool) :
    (ofExcept ((Assembled.layout code.instructions).mapError .assembly)).Ensures pool
      fun offsets _ => Assembled.layout code.instructions = Except.ok offsets :=
  ensures_ofExcept fun _ h => Success.mapError_eq_ok.mp h

/-- The last step of `withTexts?`: the new code can be assembled. -/
theorem ensures_assembled {code new : Code} {texts : List LoadedText} {pool : ConstantPool}
    (h : code.HasTexts (texts.filter (·.isChanged)) pool new) :
    (do
      let _ ← PoolChange.ofExcept (new.assemble.mapError .assembly)
      return some new : PoolChange (Option Code)).Ensures pool (code.WithTextsPost texts) := by
  refine (ensures_ofExcept (P := fun written p => new.assemble = .ok written ∧ p = pool)
    fun written hw => ⟨Success.mapError_eq_ok.mp hw, rfl⟩).bind ?_
  rintro written _ - ⟨hwritten, rfl⟩
  exact ensures_pure ⟨h, written, hwritten⟩

theorem ensures_withTexts? (code : Code) {texts : List LoadedText}
    (hnodup : (texts.map (·.label)).Nodup) (version : Version) (method : MethodHead)
    (hierarchy : Hierarchy) (pool : ConstantPool) :
    (code.withTexts? texts version method hierarchy).Ensures pool
      (code.WithTextsPost texts) := by
  refine (ensures_get (P := fun _ _ => True) trivial).bind fun _ p _ _ => ?_
  dsimp only
  split
  · next hnone => exact ensures_pure (List.isEmpty_iff.mp hnone)
  refine (ensures_foldlM_changed hnodup p).bind fun repointed q _ hrepointed => ?_
  refine (ensures_layout repointed q).bind fun new r hr hnew => ?_
  refine (ensures_layout code r).bind fun old s hs hold => ?_
  split
  · refine (ensures_settleMoved repointed _ method hierarchy s).bind fun settled t ht hsettled => ?_
    exact ensures_assembled (.moved (hrepointed.grows (hr.trans (hs.trans ht))) hsettled)
  · next hunmoved =>
    have heq : new = old := by simpa using hunmoved
    refine (ensures_pure (P := fun c p => c = repointed ∧ p = s) ⟨rfl, rfl⟩).bind ?_
    rintro _ _ - ⟨rfl, rfl⟩
    exact ensures_assembled
      (.inPlace (hrepointed.grows (hr.trans hs)) (by rw [hnew, hold, heq]))

/-! ## One place per instruction -/

/-- The second code does what the first one did, but where the rules made another text of one
that was loaded, it loads that text. Texts are those of `pool` before and those of `final`
after. -/
structure Code.IsSubstituted (code new : Code) (rewrites : List (Option Rewrite))
    (pool final : ConstantPool) : Prop where
  handlers : new.handlers = code.handlers
  size : new.instructions.size = code.instructions.size
  places : rewrites.length = code.instructions.size
  kept : ∀ {i : Label} {insn : Instruction} {rewrite? : Option Rewrite},
    code.instructions[i]? = some insn → rewrites[i]? = some rewrite? →
      insn.newText? pool rewrite? = none → new.instructions[i]? = some insn
  loads : ∀ {i : Label} {insn : Instruction} {rewrite? : Option Rewrite} {text : String},
    code.instructions[i]? = some insn → rewrites[i]? = some rewrite? →
      insn.newText? pool rewrite? = some text →
        ∃ index wide, new.instructions[i]? = some (Instruction.loadConstant index wide) ∧
          final.stringText? index = some text

theorem Code.IsSubstituted.grows {code new : Code} {rewrites : List (Option Rewrite)}
    {pool grown final : ConstantPool} (h : code.IsSubstituted new rewrites pool grown)
    (hgrows : grown.Grows final) : code.IsSubstituted new rewrites pool final where
  handlers := h.handlers
  size := h.size
  places := h.places
  kept := h.kept
  loads hinsn hrewrite htext :=
    let ⟨index, wide, hnew, hload⟩ := h.loads hinsn hrewrite htext
    ⟨index, wide, hnew, hgrows.stringText? hload⟩

theorem loadInstead_of_newText? {pool : ConstantPool} {insn : Instruction}
    {rewrite? : Option Rewrite} {text : String} (h : insn.newText? pool rewrite? = some text)
    (index : PoolIndex) : ∃ wide, insn.loadInstead index = .loadConstant index wide := by
  cases insn with
  | loadConstant old wide => exact ⟨_, rfl⟩
  | _ => simp [Instruction.newText?, Instruction.loadedText?, Instruction.loadedConstant?] at h

theorem Code.IsRepointed.instruction {code repointed : Code} {texts : List LoadedText}
    {pool : ConstantPool} (h : code.IsRepointed repointed texts pool) (i : Label) :
    repointed.instructions[i]? = code.instructions[i]? ∨ ∃ index,
      repointed.instructions[i]? = (code.instructions[i]?).map (Instruction.loadInstead index) := by
  by_cases hi : ∀ t ∈ texts, t.label ≠ i
  · exact .inl (h.kept i hi)
  · push Not at hi
    obtain ⟨t, ht, rfl⟩ := hi
    obtain ⟨index, -, hinsn⟩ := h.loads t ht
    exact .inr ⟨index, hinsn⟩

theorem Code.IsRepointed.size {code repointed : Code} {texts : List LoadedText}
    {pool : ConstantPool} (h : code.IsRepointed repointed texts pool) :
    repointed.instructions.size = code.instructions.size := by
  refine Nat.le_antisymm ?_ ?_
  · rw [← Array.getElem?_eq_none_iff]
    rcases h.instruction code.instructions.size with hi | ⟨index, hi⟩ <;> simp [hi]
  · rw [← Array.getElem?_eq_none_iff]
    have hnone : repointed.instructions[repointed.instructions.size]? = none := by simp
    rcases h.instruction repointed.instructions.size with hi | ⟨index, hi⟩
    · rwa [← hi]
    · rwa [hi, Option.map_eq_none_iff] at hnone

/-- Loading the texts that changed is doing what the rules say at every instruction. -/
theorem Code.IsRepointed.isSubstituted {code repointed : Code} {rules : Rules}
    {pool grown : ConstantPool} {draws : Draws}
    (h : code.IsRepointed repointed
      ((code.loadedTexts rules pool draws).1.filter (·.isChanged)) grown) :
    code.IsSubstituted repointed (code.rewrittenTexts rules pool draws).1 pool grown where
  handlers := h.handlers
  size := h.size
  places := length_rewrittenTexts ..
  kept := by
    intro i insn rewrite? hinsn hrewrite hsame
    rw [← hinsn]
    refine h.kept i fun t ht heq => ?_
    obtain ⟨hmem, hchanged⟩ := List.mem_filter.mp ht
    obtain ⟨insn', rewrite?', hinsn', hrewrite', hfound⟩ := mem_loadedTexts.mp hmem
    subst heq
    obtain rfl := Option.some.inj (hinsn'.symm.trans hinsn)
    obtain rfl := Option.some.inj (hrewrite'.symm.trans hrewrite)
    obtain ⟨insn', draws', hinsn', rfl⟩ := getElem?_rewrittenTexts hrewrite
    obtain rfl := Option.some.inj (hinsn'.symm.trans hinsn)
    have hnew := (newText?_eq_some_iff t.label).mpr ⟨t, hfound, hchanged, rfl⟩
    rw [hsame] at hnew
    cases hnew
  loads := by
    intro i insn rewrite? text hinsn hrewrite hnew
    obtain ⟨insn', draws', hinsn', hrun⟩ := getElem?_rewrittenTexts hrewrite
    obtain rfl := Option.some.inj (hinsn'.symm.trans hinsn)
    obtain ⟨t, hfound, hchanged, rfl⟩ :=
      (newText?_eq_some_iff i).mp (hrun ▸ hnew)
    obtain rfl := label_of_foundText? hfound
    have hmem := mem_loadedTexts.mpr ⟨insn', rewrite?, hinsn, hrewrite, hrun ▸ hfound⟩
    obtain ⟨index, hindex, hload⟩ := h.loads t (List.mem_filter.mpr ⟨hmem, hchanged⟩)
    obtain ⟨wide, hwide⟩ := loadInstead_of_newText? hnew index
    exact ⟨index, wide, by rw [hload, hinsn, Option.map_some, hwide], hindex⟩

theorem Code.HasTexts.isSubstituted {code new : Code} {rules : Rules}
    {pool grown : ConstantPool} {draws : Draws}
    (h : code.HasTexts ((code.loadedTexts rules pool draws).1.filter (·.isChanged)) grown new) :
    code.IsSubstituted new (code.rewrittenTexts rules pool draws).1 pool grown := by
  cases h with
  | inPlace h _ => exact h.isSubstituted
  | moved h hsettled =>
    have hsub := h.isSubstituted
    exact {
      handlers := hsettled.handlers.trans hsub.handlers
      size := hsettled.instructions ▸ hsub.size
      places := hsub.places
      kept := hsettled.instructions ▸ hsub.kept
      loads := hsettled.instructions ▸ hsub.loads }

/-- Where no text among those found has changed, no instruction has a new text. -/
theorem newText?_eq_none {code : Code} {rules : Rules} {pool : ConstantPool} {draws : Draws}
    (h : (code.loadedTexts rules pool draws).1.filter (·.isChanged) = []) {i : Label}
    {insn : Instruction} (hinsn : code.instructions[i]? = some insn) :
    ∃ rewrite?, (code.rewrittenTexts rules pool draws).1[i]? = some rewrite? ∧
      insn.newText? pool rewrite? = none := by
  have hi : i < (code.rewrittenTexts rules pool draws).1.length := by
    rw [length_rewrittenTexts]
    exact (Array.getElem?_eq_some_iff.mp hinsn).1
  have hrewrite := List.getElem?_eq_getElem hi
  refine ⟨_, hrewrite, ?_⟩
  obtain ⟨insn', draws', hinsn', hrun⟩ := getElem?_rewrittenTexts hrewrite
  obtain rfl := Option.some.inj (hinsn'.symm.trans hinsn)
  rw [Option.eq_none_iff_forall_ne_some]
  intro text hnew
  obtain ⟨t, hfound, hchanged, rfl⟩ := (newText?_eq_some_iff i).mp (hrun ▸ hnew)
  obtain rfl := label_of_foundText? hfound
  have hmem := mem_loadedTexts.mpr ⟨insn', _, hinsn, hrewrite, hrun ▸ hfound⟩
  have hnot := List.filter_eq_nil_iff.mp h t hmem
  exact hnot hchanged

end ClassText
