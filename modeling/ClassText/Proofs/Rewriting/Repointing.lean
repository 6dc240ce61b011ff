import ClassText.Proofs.Rewriting.Settling
import ClassText.Proofs.Rule.Replacing

/-!
# Code with new texts

What the rules make of the texts that a method loads is a list with a place for
every instruction (`Code.rewrittenTexts`). The work on a method keeps only those
texts in which a key was found, each with its label; `loadedTexts_eq` recovers
that list from the full one, together with the draws that are left, and the
texts that were left out did not change.

`Code.IsRepointed` describes the code after some of its loads were changed: an
instruction either loads a string with the text that was asked for, or it is the
instruction that was there. The fold over the changed texts keeps this
description because no two texts have one label.
-/

namespace ClassText

open ConstantPool PoolChange

/-! ## Texts that are loaded -/

/-- The text of the string that an instruction loads. -/
def Instruction.loadedText? (pool : ConstantPool) (insn : Instruction) : Option String :=
  insn.loadedConstant?.bind pool.stringText?

/-- What the rules make of the text that an instruction loads. -/
def Instruction.rewrittenText (rules : Rules) (pool : ConstantPool) (insn : Instruction) :
    Drawing (Option Rewrite) :=
  match insn.loadedText? pool with
  | none => return none
  | some text => return some (← rules.rewrite text)

/-- What the rules make of the texts that the instructions load, one after the other. -/
def Code.rewrittenTexts (code : Code) (rules : Rules) (pool : ConstantPool) :
    Drawing (List (Option Rewrite)) :=
  code.instructions.toList.mapM (·.rewrittenText rules pool)

/-- The text that the instruction has to load instead, if the rules made another one of its own. -/
def Instruction.newText? (pool : ConstantPool) (insn : Instruction) (rewrite? : Option Rewrite) :
    Option String :=
  match insn.loadedText? pool, rewrite? with
  | some text, some rewrite => if rewrite.text = text then none else some rewrite.text
  | _, _ => none

/-- The text that an instruction loads, if some key was found in it. -/
def Instruction.foundText? (pool : ConstantPool) (insn : Instruction) (rewrite? : Option Rewrite)
    (label : Label) : Option LoadedText :=
  match insn.loadedText? pool, rewrite? with
  | some text, some rewrite =>
    if rewrite.replacements.isEmpty then none else some ⟨label, text, rewrite⟩
  | _, _ => none

theorem run_rewriteText? (rules : Rules) (pool : ConstantPool) (label : Label)
    (insn : Instruction) (draws : Draws) :
    Code.rewriteText? rules pool label insn draws =
      (insn.foundText? pool (insn.rewrittenText rules pool draws).1 label,
        (insn.rewrittenText rules pool draws).2) := by
  unfold Code.rewriteText? Instruction.foundText? Instruction.rewrittenText
    Instruction.loadedText?
  cases insn.loadedConstant?.bind pool.stringText? with
  | none => rfl
  | some text =>
    show ((if (rules.rewrite text draws).1.replacements.isEmpty then none
      else some _ : Option LoadedText), _) = _
    rfl

theorem filterMapM_rewriteText? (rules : Rules) (pool : ConstantPool) :
    ∀ (insns : List Instruction) (k : Label) (draws : Draws),
      ((insns.zipIdx k).filterMapM fun (insn, label) =>
          Code.rewriteText? rules pool label insn : Drawing (List LoadedText)) draws =
        (((insns.zip (insns.mapM (·.rewrittenText rules pool) draws).1).zipIdx k).filterMap
            (fun ((insn, rewrite?), label) => insn.foundText? pool rewrite? label),
          (insns.mapM (·.rewrittenText rules pool) draws).2)
  | [], _, _ => rfl
  | insn :: insns, k, draws => by
    have ih := filterMapM_rewriteText? rules pool insns (k + 1)
      (insn.rewrittenText rules pool draws).2
    have hrun := run_rewriteText? rules pool k insn draws
    rw [List.mapM_cons, List.zipIdx_cons, List.filterMapM_cons]
    simp only [Draws.run_bind, Draws.run_pure, hrun, List.zip_cons_cons, List.zipIdx_cons,
      List.filterMap_cons]
    cases insn.foundText? pool (insn.rewrittenText rules pool draws).1 k with
    | none => exact ih
    | some t => simp only [Draws.run_bind, Draws.run_pure, ih]

theorem loadedTexts_eq (code : Code) (rules : Rules) (pool : ConstantPool) (draws : Draws) :
    code.loadedTexts rules pool draws =
      (((code.instructions.toList.zip
          (code.rewrittenTexts rules pool draws).1).zipIdx).filterMap
            (fun ((insn, rewrite?), label) => insn.foundText? pool rewrite? label),
        (code.rewrittenTexts rules pool draws).2) :=
  filterMapM_rewriteText? rules pool _ 0 draws

theorem label_of_foundText? {pool : ConstantPool} {insn : Instruction} {rewrite? : Option Rewrite}
    {label : Label} {t : LoadedText} (h : insn.foundText? pool rewrite? label = some t) :
    t.label = label := by
  unfold Instruction.foundText? at h
  split at h
  · split at h
    · cases h
    · exact congrArg LoadedText.label (Option.some.inj h).symm
  · cases h

theorem mem_loadedTexts {code : Code} {rules : Rules} {pool : ConstantPool} {draws : Draws}
    {t : LoadedText} :
    t ∈ (code.loadedTexts rules pool draws).1 ↔ ∃ insn rewrite?,
      code.instructions[t.label]? = some insn ∧
      (code.rewrittenTexts rules pool draws).1[t.label]? = some rewrite? ∧
      insn.foundText? pool rewrite? t.label = some t := by
  rw [loadedTexts_eq]
  simp only [List.mem_filterMap, Prod.exists, List.mem_zipIdx_iff_getElem?,
    List.getElem?_zip_eq_some, Array.getElem?_toList]
  constructor
  · rintro ⟨insn, rewrite?, label, ⟨hinsn, hrewrite⟩, ht⟩
    obtain rfl := label_of_foundText? ht
    exact ⟨insn, rewrite?, hinsn, hrewrite, ht⟩
  · rintro ⟨insn, rewrite?, hinsn, hrewrite, ht⟩
    exact ⟨insn, rewrite?, t.label, ⟨hinsn, hrewrite⟩, ht⟩

theorem pairwise_zipIdx {α : Type} (items : List α) (k : Nat) :
    (items.zipIdx k).Pairwise (·.2 < ·.2) := by
  have h := @List.pairwise_lt_range' k items.length 1 Nat.one_pos
  rw [← List.zipIdx_map_snd, List.pairwise_map] at h
  exact h

/-- No two of the texts have one label. -/
theorem nodup_label_loadedTexts (code : Code) (rules : Rules) (pool : ConstantPool)
    (draws : Draws) : ((code.loadedTexts rules pool draws).1.map (·.label)).Nodup := by
  rw [loadedTexts_eq, List.Nodup, List.pairwise_map, List.pairwise_filterMap]
  refine (pairwise_zipIdx _ 0).imp ?_
  intro a b hlt t ht u hu heq
  rw [label_of_foundText? ht, label_of_foundText? hu] at heq
  exact Nat.ne_of_lt hlt heq

theorem getElem?_mapM {α β : Type} {f : α → Drawing β} {items : List α} {draws : Draws} {i : Nat}
    {b : β} (h : (items.mapM f draws).1[i]? = some b) :
    ∃ a draws', items[i]? = some a ∧ (f a draws').1 = b := by
  have hlt := (List.getElem?_eq_some_iff.mp h).1
  rw [Draws.length_mapM] at hlt
  obtain ⟨stage, -, hstage⟩ := @Draws.mapM_stages _ _ f items draws
  obtain ⟨hb, -⟩ := hstage i _ (List.getElem?_eq_getElem hlt)
  exact ⟨_, stage i, List.getElem?_eq_getElem hlt, Option.some.inj (hb.symm.trans h)⟩

theorem getElem?_rewrittenTexts {code : Code} {rules : Rules} {pool : ConstantPool}
    {draws : Draws} {i : Label} {rewrite? : Option Rewrite}
    (h : (code.rewrittenTexts rules pool draws).1[i]? = some rewrite?) :
    ∃ insn draws', code.instructions[i]? = some insn ∧
      (insn.rewrittenText rules pool draws').1 = rewrite? := by
  obtain ⟨insn, draws', hinsn, hrewrite⟩ := getElem?_mapM h
  exact ⟨insn, draws', by rwa [Array.getElem?_toList] at hinsn, hrewrite⟩

theorem length_rewrittenTexts (code : Code) (rules : Rules) (pool : ConstantPool)
    (draws : Draws) :
    (code.rewrittenTexts rules pool draws).1.length = code.instructions.size := by
  rw [Code.rewrittenTexts, Draws.length_mapM, Array.length_toList]

/-- The texts that are loaded anew are those found to have changed: a text in which no key is
found is not another one. -/
theorem newText?_eq_some_iff {rules : Rules} {pool : ConstantPool} {insn : Instruction}
    {draws : Draws} (label : Label) {text : String} :
    insn.newText? pool (insn.rewrittenText rules pool draws).1 = some text ↔
      ∃ t, insn.foundText? pool (insn.rewrittenText rules pool draws).1 label = some t ∧
        t.isChanged = true ∧ t.rewrite.text = text := by
  unfold Instruction.newText? Instruction.foundText? Instruction.rewrittenText
  cases insn.loadedText? pool with
  | none => simp
  | some before =>
    simp only [Draws.run_bind, Draws.run_pure]
    by_cases hnil : (rules.rewrite before draws).1.replacements = []
    · simp [hnil, Rules.text_rewrite hnil]
    · simp [hnil, LoadedText.isChanged]

/-! ## Changing the loads -/

/-- The second code loads these texts at their labels, and is the first one in everything
else. -/
structure Code.IsRepointed (code repointed : Code) (texts : List LoadedText)
    (pool : ConstantPool) : Prop where
  rest : repointed = { code with instructions := repointed.instructions }
  kept : ∀ i, (∀ t ∈ texts, t.label ≠ i) →
    repointed.instructions[i]? = code.instructions[i]?
  loads : ∀ t ∈ texts, ∃ index, pool.stringText? index = some t.rewrite.text ∧
    repointed.instructions[t.label]? =
      (code.instructions[t.label]?).map (Instruction.loadInstead index)

theorem Code.IsRepointed.refl (code : Code) (pool : ConstantPool) :
    code.IsRepointed code [] pool :=
  ⟨rfl, fun _ _ => rfl, by simp⟩

theorem Code.IsRepointed.handlers {code repointed : Code} {texts : List LoadedText}
    {pool : ConstantPool} (h : code.IsRepointed repointed texts pool) :
    repointed.handlers = code.handlers := by
  rw [h.rest]

theorem Code.IsRepointed.attributes {code repointed : Code} {texts : List LoadedText}
    {pool : ConstantPool} (h : code.IsRepointed repointed texts pool) :
    repointed.attributes = code.attributes := by
  rw [h.rest]

theorem Code.IsRepointed.grows {code repointed : Code} {texts : List LoadedText}
    {pool grown : ConstantPool} (h : code.IsRepointed repointed texts pool)
    (hgrows : pool.Grows grown) : code.IsRepointed repointed texts grown where
  rest := h.rest
  kept := h.kept
  loads := fun t ht =>
    let ⟨index, hindex, hinsn⟩ := h.loads t ht
    ⟨index, hgrows.stringText? hindex, hinsn⟩

/-- One more text, at a label that is not among those before. -/
theorem Code.IsRepointed.snoc {code repointed : Code} {texts : List LoadedText}
    {pool : ConstantPool} {t : LoadedText} {index : PoolIndex}
    (h : code.IsRepointed repointed texts pool) (hfresh : ∀ u ∈ texts, u.label ≠ t.label)
    (hindex : pool.stringText? index = some t.rewrite.text) :
    code.IsRepointed
      { repointed with instructions :=
          repointed.instructions.modify t.label (Instruction.loadInstead index) }
      (texts ++ [t]) pool where
  rest := by rw [h.rest]
  kept := by
    intro i hi
    have hne : t.label ≠ i := hi t (by simp)
    rw [Array.getElem?_modify, if_neg hne]
    exact h.kept i fun u hu => hi u (by simp [hu])
  loads := by
    intro u hu
    rcases List.mem_append.mp hu with hu | hu
    · obtain ⟨j, hj, hinsn⟩ := h.loads u hu
      refine ⟨j, hj, ?_⟩
      rw [Array.getElem?_modify, if_neg (Ne.symm (hfresh u hu))]
      exact hinsn
    · obtain rfl := List.mem_singleton.mp hu
      refine ⟨index, hindex, ?_⟩
      rw [Array.getElem?_modify, if_pos rfl, h.kept u.label hfresh]

theorem ensures_repoint (code : Code) (t : LoadedText) (pool : ConstantPool) :
    (code.repoint t).Ensures pool fun c grown => ∃ index,
      grown.stringText? index = some t.rewrite.text ∧
        c = { code with instructions :=
          code.instructions.modify t.label (Instruction.loadInstead index) } := by
  refine (ensures_internText t.rewrite.text pool).bind fun i p _ hi => ?_
  refine (ensures_internString i p).bind fun j q hgrows hj => ensures_pure ?_
  exact ⟨j, stringText?_eq_some_iff.mpr ⟨i, hj, hgrows.text? hi⟩, rfl⟩

/-- Loading texts with different labels one after the other loads all of them. -/
theorem ensures_foldlM_repoint {code : Code} :
    ∀ (texts done : List LoadedText) (current : Code) (pool : ConstantPool),
      ((done ++ texts).map (·.label)).Nodup → code.IsRepointed current done pool →
        (texts.foldlM Code.repoint current).Ensures pool fun c grown =>
          code.IsRepointed c (done ++ texts) grown
  | [], done, _, _, _, h => ensures_pure (by simpa using h)
  | t :: texts, done, current, pool, hnodup, h => by
    have hfresh : ∀ u ∈ done, u.label ≠ t.label := by
      rw [List.map_append, List.nodup_append] at hnodup
      intro u hu
      exact hnodup.2.2 _ (List.mem_map_of_mem hu) _ (by simp)
    refine (ensures_repoint current t pool).bind ?_
    rintro _ grown hgrows ⟨index, hindex, rfl⟩
    have hsnoc := (h.grows hgrows).snoc hfresh hindex
    simpa using ensures_foldlM_repoint texts (done ++ [t]) _ grown (by simpa using hnodup) hsnoc

/-- Loading the texts that have changed loads all of them. -/
theorem ensures_foldlM_changed {code : Code} {texts : List LoadedText}
    (hnodup : (texts.map (·.label)).Nodup) (pool : ConstantPool) :
    ((texts.filter (·.isChanged)).foldlM Code.repoint code).Ensures pool fun c grown =>
      code.IsRepointed c (texts.filter (·.isChanged)) grown :=
  ensures_foldlM_repoint _ [] code pool ((List.filter_sublist.map _).nodup hnodup) (.refl code pool)

end ClassText
