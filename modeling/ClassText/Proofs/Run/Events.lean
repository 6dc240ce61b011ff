import ClassText.Proofs.Run.Entries
import Mathlib.Algebra.BigOperators.Group.List.Basic
import Mathlib.Algebra.Ring.Nat

/-!
# What is told and what is counted

Replacements and failures are told as they happen, and counted in a report for
each class. `ClassReport.Counts` says that the two agree, and every step of the
work on a class keeps that. What becomes of the report is another matter: if the
class fails in the end, its replacements are not counted, and if the work on it
broke off, neither are its methods that failed. But all of that has been told by
then. `countP_events` says by how much the numbers of events differ from those of
the summary, and that they agree unless a class fails after it was read.
-/

namespace ClassText

open PoolChange

namespace Event

def isSubstituted : Event → Bool
  | substituted _ _ => true
  | _ => false

def isMethodFailed : Event → Bool
  | methodFailed _ _ => true
  | _ => false

def isClassFailed : Event → Bool
  | classFailed _ _ => true
  | _ => false

end Event

/-! ## One class -/

/-- The report counts what was told. Nothing was told of whole classes. -/
structure ClassReport.Counts (report : ClassReport) (events : List Event) : Prop where
  substitutions : events.countP (·.isSubstituted) = report.substitutions
  failedMethods : events.countP (·.isMethodFailed) = report.failedMethods
  classFailed : events.countP (·.isClassFailed) = 0

theorem ClassReport.counts_nil : ClassReport.Counts {} [] := ⟨rfl, rfl, rfl⟩

namespace ClassStep

variable {α β : Type}

/-- The step keeps the report in agreement with what was told, whether or not it succeeds. -/
def KeepsCounts (step : ClassStep α) : Prop :=
  ∀ p, p.report.Counts p.events → (step p).2.report.Counts (step p).2.events

theorem keepsCounts_pure (a : α) : KeepsCounts (pure a) := fun _ h => h

theorem KeepsCounts.bind {step : ClassStep α} {next : α → ClassStep β} (h : step.KeepsCounts)
    (hnext : ∀ a, (next a).KeepsCounts) : (step >>= next).KeepsCounts := by
  intro p hp
  rw [run_bind]
  have hfirst := h p hp
  cases (step p).1 with
  | error e => exact hfirst
  | ok a => exact hnext a _ hfirst

theorem keepsCounts_get : KeepsCounts (get : ClassStep ClassProgress) := fun _ h => h

theorem keepsCounts_drawing (draw : Drawing α) : (drawing draw).KeepsCounts := fun _ h => h

theorem keepsCounts_changing (change : PoolChange α) : (changing change).KeepsCounts :=
  fun _ h => h

theorem keepsCounts_ofExcept (result : Except ClassError α) : (ofExcept result).KeepsCounts :=
  fun _ h => h

theorem keepsCounts_tellChanged : tellChanged.KeepsCounts :=
  fun _ h => ⟨h.substitutions, h.failedMethods, h.classFailed⟩

theorem keepsCounts_tellFailed (place : MethodPlace) (error : ClassError) :
    (tellFailed place error).KeepsCounts := by
  intro p h
  rw [tellFailed, run_modify]
  constructor
  · exact (List.countP_append ..).trans h.substitutions
  · rw [List.countP_append, h.failedMethods]
    rfl
  · exact (List.countP_append ..).trans h.classFailed

theorem keepsCounts_tellReplaced (place : MethodPlace) (replacements : List Replacement) :
    (tellReplaced place replacements).KeepsCounts := by
  intro p h
  have hall : (replacements.map (Event.substituted place)).countP (·.isSubstituted) =
      replacements.length := by
    rw [List.countP_map]
    exact congrFun List.countP_true replacements
  have hnone (q : Event → Bool) (hq : ∀ r, q (.substituted place r) = false) :
      (replacements.map (Event.substituted place)).countP q = 0 := by
    rw [List.countP_map, List.countP_eq_zero]
    simp [hq]
  rw [tellReplaced, run_modify]
  constructor
  · rw [List.countP_append, h.substitutions, hall]
  · rw [List.countP_append, h.failedMethods, hnone _ fun _ => rfl]
    rfl
  · rw [List.countP_append, h.classFailed, hnone _ fun _ => rfl]

theorem keepsCounts_mapM {step : α → ClassStep β} {items : List α}
    (h : ∀ a ∈ items, (step a).KeepsCounts) : (items.mapM step).KeepsCounts :=
  Success.mapM_closed (P := fun _ => KeepsCounts) keepsCounts_pure KeepsCounts.bind h

end ClassStep

open ClassStep

theorem ClassContext.keepsCounts_rewriteCode (ctx : ClassContext) (method : Method)
    (place : MethodPlace) (code : Code) : (ctx.rewriteCode method place code).KeepsCounts := by
  refine keepsCounts_get.bind fun progress => (keepsCounts_drawing _).bind fun texts => ?_
  split
  · exact keepsCounts_pure _
  refine (keepsCounts_changing _).bind fun result => ?_
  cases result with
  | error e => exact (keepsCounts_tellFailed place e).bind fun _ => keepsCounts_pure _
  | ok result =>
    refine (keepsCounts_tellReplaced place _).bind fun _ => ?_
    cases result with
    | none => exact keepsCounts_pure _
    | some code => exact keepsCounts_tellChanged.bind fun _ => keepsCounts_pure _

theorem ClassContext.keepsCounts_rewriteMethod (ctx : ClassContext) (method : Method) :
    (ctx.rewriteMethod method).KeepsCounts := by
  refine keepsCounts_get.bind fun progress => (keepsCounts_ofExcept _).bind fun name =>
    (keepsCounts_ofExcept _).bind fun descriptor => ?_
  cases method.code? with
  | none => exact keepsCounts_pure _
  | some code => exact ctx.keepsCounts_rewriteCode method _ code

/-- What is told in the work on a class is counted in some report. If the work comes to an end,
that is the one which is left. -/
theorem ClassFile.rewrite_counts (c : ClassFile) (rules : Rules) (hierarchy : Hierarchy)
    (draws : Draws) : ∃ report : ClassReport,
      report.Counts (c.rewrite rules hierarchy draws).events ∧
      ∀ done, (c.rewrite rules hierarchy draws).outcome = .ok done → done.report = report := by
  unfold ClassFile.rewrite
  cases c.rewritableName with
  | error e => exact ⟨{}, ClassReport.counts_nil, fun _ h => nomatch h⟩
  | ok name =>
    let ctx : ClassContext := ⟨name, c.version, rules, hierarchy⟩
    have hsteps : (c.methods.mapM ctx.rewriteMethod).KeepsCounts :=
      keepsCounts_mapM fun method _ => ctx.keepsCounts_rewriteMethod method
    have h := hsteps ⟨c.pool, draws, [], {}⟩ ClassReport.counts_nil
    refine ⟨_, h, fun done hdone => ?_⟩
    obtain ⟨methods, -, rfl⟩ := Success.map_eq_ok.mp hdone
    rfl

theorem ClassFile.counts_of_rewrite {c : ClassFile} {rules : Rules} {hierarchy : Hierarchy}
    {draws : Draws} {done : RewrittenClass}
    (h : (c.rewrite rules hierarchy draws).outcome = .ok done) :
    done.report.Counts (c.rewrite rules hierarchy draws).events := by
  obtain ⟨report, hcounts, heq⟩ := c.rewrite_counts rules hierarchy draws
  exact heq done h ▸ hcounts

/-! ## One entry -/

/-- Only one content is found in an entry. -/
theorem Entry.HasContent.eq {e : Entry} {content : EntryContent} (h : e.HasContent content) :
    EntryContent.ofEntry e = content := by
  cases h with
  | directory h => exact if_pos h
  | noClass hfile h =>
    rw [EntryContent.ofEntry, hfile, if_neg Bool.false_ne_true, EntryContent.ofBytes,
      ClassFile.ofBytes_eq_notClassFile_iff.mpr h]
  | @broken error hfile hmagic h =>
    rw [EntryContent.ofEntry, hfile, if_neg Bool.false_ne_true, EntryContent.ofBytes]
    rcases Success.bind_eq_error.mp h with hread | ⟨c, hread, hinfo⟩
    · rw [hread]
      cases error with
      | notClassFile => exact (ClassFile.ofBytes_eq_notClassFile_iff.mp hread hmagic).elim
      | _ => rfl
    · rw [hread]
      dsimp only
      rw [hinfo]
  | classFile h => exact h.content_eq

/-- The settings do not ask for the class in the entry, or it can be rewritten, and written if a
text has changed. -/
def Settings.Finishes (s : Settings) (known : Hierarchy) (draws : Draws) (e : Entry) : Prop :=
  ∀ c info, e.Holds c info → s.matchesClass info.name = true →
    ∃ done, (c.rewrite s.rules known draws).outcome = .ok done ∧
      (done.report.changed = true → ∃ bytes, done.classFile.toBytes = .ok bytes)

namespace Settings.Exit

variable {s : Settings} {known : Hierarchy} {draws left : Draws} {e : Entry}
  {result : ProcessedEntry}

/-- The failure of a class is told exactly if it counts as failed, and once. -/
theorem countP_classFailed (h : s.Exit known draws e result left) :
    ((EntryContent.ofEntry e).opening e.name).countP (·.isClassFailed) +
      result.events.countP (·.isClassFailed) = if result.outcome.isFailed then 1 else 0 := by
  have hopening {c : ClassFile} {info : ClassInfo} (hholds : e.Holds c info) :
      (EntryContent.ofEntry e).opening e.name = [] := by
    rw [hholds.content_eq, EntryContent.opening]
    exact nofun
  have hclass (c : ClassFile) :
      (c.rewrite s.rules known draws).events.countP (·.isClassFailed) = 0 := by
    obtain ⟨_, hcounts, -⟩ := c.rewrite_counts s.rules known draws
    exact hcounts.classFailed
  cases h with
  | noClass h => rw [h.eq]; rfl
  | malformed h => rw [h.eq]; rfl
  | filtered hholds => rw [hopening hholds]; rfl
  | unchanged hholds => rw [hopening hholds, hclass]; rfl
  | rewritten hholds => rw [hopening hholds, hclass]; rfl
  | unfinished hholds => rw [hopening hholds, List.countP_append, hclass]; rfl
  | unwritten hholds => rw [hopening hholds, List.countP_append, hclass]; rfl

/-- Replacements that were told are counted unless the class failed. -/
theorem countP_substituted (h : s.Exit known draws e result left) :
    result.events.countP (·.isSubstituted) = result.outcome.substitutions +
      if result.outcome.isFailed then result.events.countP (·.isSubstituted) else 0 := by
  cases h with
  | noClass _ | malformed _ | filtered _ _ => rfl
  | unchanged _ _ hdone => exact (ClassFile.counts_of_rewrite hdone).substitutions
  | rewritten _ _ hdone => exact (ClassFile.counts_of_rewrite hdone).substitutions
  | unfinished _ _ _ | unwritten _ _ _ _ _ => exact (Nat.zero_add _).symm

/-- Methods of which it was told that they failed are counted unless the work on the class broke
off. -/
theorem countP_methodFailed (h : s.Exit known draws e result left) :
    result.events.countP (·.isMethodFailed) = result.outcome.report.failedMethods +
      if result.outcome = .failed {} then result.events.countP (·.isMethodFailed) else 0 := by
  cases h with
  | noClass _ | malformed _ | filtered _ _ => rfl
  | unchanged _ _ hdone =>
    rw [if_neg nofun]
    exact (ClassFile.counts_of_rewrite hdone).failedMethods
  | rewritten _ _ hdone =>
    rw [if_neg nofun]
    exact (ClassFile.counts_of_rewrite hdone).failedMethods
  | unfinished _ _ _ =>
    rw [if_pos rfl]
    exact (Nat.zero_add _).symm
  | @unwritten c info done error _ _ hdone hchanged =>
    -- the report says that something has changed, so it is not the empty one
    have hne : EntryOutcome.failed done.report ≠ .failed {} := by
      intro heq
      rw [EntryOutcome.failed.inj heq] at hchanged
      cases hchanged
    rw [if_neg hne]
    exact (List.countP_append ..).trans (ClassFile.counts_of_rewrite hdone).failedMethods

/-- If the class in the entry does not fail after it was read, an entry that failed has nothing to
tell. -/
theorem events_eq_nil (h : s.Exit known draws e result left) (hclass : s.Finishes known draws e)
    (hfailed : result.outcome.isFailed = true) : result.events = [] := by
  cases h with
  | malformed _ => rfl
  | unfinished hholds hmatches hbroken =>
    obtain ⟨done, hdone, -⟩ := hclass _ _ hholds hmatches
    cases hbroken.symm.trans hdone
  | unwritten hholds hmatches hdone hchanged hwrite =>
    obtain ⟨done, hdone', hbytes⟩ := hclass _ _ hholds hmatches
    obtain rfl := Except.ok.inj (hdone.symm.trans hdone')
    obtain ⟨bytes, hbytes⟩ := hbytes hchanged
    cases hwrite.symm.trans hbytes
  | noClass _ => cases hfailed
  | filtered _ _ => cases hfailed
  | unchanged _ _ _ _ => cases hfailed
  | rewritten _ _ _ _ _ => cases hfailed

end Settings.Exit

/-! ## Runs -/

theorem EntryOutcome.total_eq_sum (number : EntryOutcome → Nat) (outcomes : List EntryOutcome) :
    total number outcomes = (outcomes.map number).sum := by
  rw [total, List.sum, List.foldr_map]

/-- What differs for some of the items differs in the sum by what it does for these. -/
theorem sum_eq_add_sum_filter {α : Type} {f g h : α → Nat} {p : α → Bool} :
    ∀ {items : List α}, (∀ a ∈ items, f a = g a + if p a then h a else 0) →
      (items.map f).sum = (items.map g).sum + ((items.filter p).map h).sum
  | [], _ => rfl
  | a :: items, hall => by
    obtain ⟨ha, hrest⟩ := List.forall_mem_cons.mp hall
    rw [List.map_cons, List.map_cons, List.sum_cons, List.sum_cons, ha, sum_eq_add_sum_filter hrest]
    cases hp : p a with
    | true =>
      rw [List.filter_cons_of_pos hp, List.map_cons, List.sum_cons, if_pos rfl]
      omega
    | false =>
      rw [List.filter_cons_of_neg (by rw [hp]; exact Bool.false_ne_true),
        if_neg Bool.false_ne_true]
      omega

namespace Run

variable (s : Settings) (hierarchy : Hierarchy) (entries : List Entry) (draws : Draws)

theorem sum_countP_classFailed {known : Hierarchy} :
    ∀ {entries : List Entry} {results : List ProcessedEntry},
      List.Forall₂ (fun e r => ∃ draws left, s.Exit known draws e r left) entries results →
        (entries.map fun e => ((EntryContent.ofEntry e).opening e.name).countP
            (·.isClassFailed)).sum + (results.map (·.events.countP (·.isClassFailed))).sum =
          results.countP (·.outcome.isFailed)
  | _, _, .nil => rfl
  | _, _, .cons ⟨_, _, hexit⟩ hrest => by
    rw [List.map_cons, List.map_cons, List.sum_cons, List.sum_cons, List.countP_cons,
      ← sum_countP_classFailed hrest, ← hexit.countP_classFailed]
    omega

theorem summary_substitutions : (ofEntries s hierarchy entries draws).1.summary.substitutions =
    ((results s hierarchy entries draws).map (·.outcome.substitutions)).sum := by
  rw [ofEntries_eq]
  refine (EntryOutcome.total_eq_sum _ _).trans ?_
  rw [List.map_map]
  rfl

theorem summary_failedMethods : (ofEntries s hierarchy entries draws).1.summary.failedMethods =
    ((results s hierarchy entries draws).map (·.outcome.report.failedMethods)).sum := by
  rw [ofEntries_eq]
  refine (EntryOutcome.total_eq_sum _ _).trans ?_
  rw [List.map_map]
  rfl

/-- When entries are opened, nothing but failures of classes is told. -/
theorem countP_openings {p : Event → Bool}
    (hp : ∀ name error, p (.classFailed name error) = false) :
    (entries.flatMap fun e => (EntryContent.ofEntry e).opening e.name).countP p = 0 := by
  rw [List.countP_eq_zero]
  intro event hevent
  obtain ⟨e, -, hevent⟩ := List.mem_flatMap.mp hevent
  cases hcontent : EntryContent.ofEntry e with
  | broken error =>
    rw [hcontent] at hevent
    obtain rfl := List.mem_singleton.mp hevent
    rw [hp]
    exact Bool.false_ne_true
  | _ =>
    rw [hcontent] at hevent
    cases hevent

theorem countP_events_eq_sum {p : Event → Bool}
    (hp : ∀ name error, p (.classFailed name error) = false) :
    (ofEntries s hierarchy entries draws).1.events.countP p =
      ((results s hierarchy entries draws).map (·.events.countP p)).sum := by
  rw [ofEntries_eq, List.countP_append, countP_openings entries hp, Nat.zero_add,
    List.countP_flatMap]
  rfl

theorem sum_filter_eq_zero {results : List ProcessedEntry} {q : ProcessedEntry → Bool}
    {p : Event → Bool} (h : ∀ result ∈ results, q result = true → result.events = []) :
    ((results.filter q).map (·.events.countP p)).sum = 0 := by
  refine List.sum_eq_zero fun n hn => ?_
  obtain ⟨result, hresult, rfl⟩ := List.mem_map.mp hn
  obtain ⟨hmem, hq⟩ := List.mem_filter.mp hresult
  rw [h result hmem hq, List.countP_nil]

theorem countP_classFailed :
    (ofEntries s hierarchy entries draws).1.events.countP (·.isClassFailed) =
      (ofEntries s hierarchy entries draws).1.summary.failedClasses := by
  rw [ofEntries_eq, List.countP_append, List.countP_flatMap, List.countP_flatMap]
  refine (sum_countP_classFailed s (forall₂_exits s hierarchy entries draws)).trans ?_
  exact (List.countP_map (p := fun o : EntryOutcome => o.isFailed)).symm

theorem countP_substituted :
    (ofEntries s hierarchy entries draws).1.events.countP (·.isSubstituted) =
      (ofEntries s hierarchy entries draws).1.summary.substitutions +
        (((results s hierarchy entries draws).filter (·.outcome.isFailed)).map
          (·.events.countP (·.isSubstituted))).sum := by
  rw [countP_events_eq_sum _ _ _ _ fun _ _ => rfl, summary_substitutions]
  refine sum_eq_add_sum_filter fun result hresult => ?_
  obtain ⟨e, _, _, h⟩ := Success.exists_of_mem_right (forall₂_exits s hierarchy entries draws)
    result hresult
  exact h.countP_substituted

theorem countP_methodFailed :
    (ofEntries s hierarchy entries draws).1.events.countP (·.isMethodFailed) =
      (ofEntries s hierarchy entries draws).1.summary.failedMethods +
        (((results s hierarchy entries draws).filter (·.outcome = .failed {})).map
          (·.events.countP (·.isMethodFailed))).sum := by
  rw [countP_events_eq_sum _ _ _ _ fun _ _ => rfl, summary_failedMethods]
  refine sum_eq_add_sum_filter fun result hresult => ?_
  obtain ⟨e, _, _, h⟩ := Success.exists_of_mem_right (forall₂_exits s hierarchy entries draws)
    result hresult
  simpa only [decide_eq_true_eq] using h.countP_methodFailed

/-- What is told of a class that fails in the end is not counted, though it has been told. -/
theorem countP_events :
    let run := (ofEntries s hierarchy entries draws).1
    let known := hierarchy.withEntries entries
    ∃ (stage : Nat → Draws) (results : List ProcessedEntry),
      stage 0 = draws ∧
      results.length = entries.length ∧
      (∀ i e, entries[i]? = some e → ∃ result, results[i]? = some result ∧
        s.Exit known (stage i) e result (stage (i + 1))) ∧
      run.events = (entries.flatMap fun e => (EntryContent.ofEntry e).opening e.name) ++
        results.flatMap (·.events) ∧
      run.events.countP (·.isClassFailed) = run.summary.failedClasses ∧
      run.events.countP (·.isSubstituted) = run.summary.substitutions +
        ((results.filter (·.outcome.isFailed)).map (·.events.countP (·.isSubstituted))).sum ∧
      run.events.countP (·.isMethodFailed) = run.summary.failedMethods +
        ((results.filter (·.outcome = .failed {})).map
          (·.events.countP (·.isMethodFailed))).sum ∧
      ((∀ i e, entries[i]? = some e → s.Finishes known (stage i) e) →
        run.events.countP (·.isSubstituted) = run.summary.substitutions ∧
          run.events.countP (·.isMethodFailed) = run.summary.failedMethods ∧
          ∀ result ∈ results, result.outcome.isFailed = true → result.events = []) := by
  obtain ⟨stage, hfirst, hexits⟩ := results_exits s hierarchy entries draws
  have hlen := length_results s hierarchy entries draws
  refine ⟨stage, results s hierarchy entries draws, hfirst, hlen, hexits, by rw [ofEntries_eq],
    countP_classFailed s hierarchy entries draws, countP_substituted s hierarchy entries draws,
    countP_methodFailed s hierarchy entries draws, fun hfinishes => ?_⟩
  have hnil : ∀ result ∈ results s hierarchy entries draws, result.outcome.isFailed = true →
      result.events = [] := by
    intro result hresult hfailed
    obtain ⟨i, hi⟩ := List.mem_iff_getElem?.mp hresult
    have hlt : i < entries.length := hlen ▸ (List.getElem?_eq_some_iff.mp hi).1
    have he := List.getElem?_eq_getElem hlt
    obtain ⟨found, hfound, h⟩ := hexits i _ he
    obtain rfl := Option.some.inj (hi.symm.trans hfound)
    exact h.events_eq_nil (hfinishes i _ he) hfailed
  refine ⟨?_, ?_, hnil⟩
  · rw [countP_substituted, sum_filter_eq_zero hnil, Nat.add_zero]
  · have hempty : ∀ result ∈ results s hierarchy entries draws,
        decide (result.outcome = .failed {}) = true → result.events = [] := by
      intro result hresult hfailed
      refine hnil result hresult ?_
      rw [of_decide_eq_true hfailed]
      rfl
    rw [countP_methodFailed, sum_filter_eq_zero hempty, Nat.add_zero]

/-! ## A class that fails after a replacement -/

/-- A class of two methods. The first one loads the string at 7; for the name of the second one
there is no text. -/
def namelessBytes : Bytes :=
  [202, 254, 186, 190, 0, 0, 0, 49, 0, 8, 1, 0, 1, 65, 7, 0, 1, 1, 0, 1, 109, 1, 0, 3, 40, 41, 86,
    1, 0, 4, 67, 111, 100, 101, 1, 0, 1, 97, 8, 0, 6, 0, 0, 0, 2, 0, 0, 0, 0, 0, 0, 0, 2, 0, 0, 0,
    3, 0, 4, 0, 1, 0, 5, 0, 0, 0, 16, 0, 1, 0, 0, 0, 0, 0, 4, 18, 7, 87, 177, 0, 0, 0, 0, 0, 0, 0,
    2, 0, 4, 0, 0, 0, 0]

/-- The replacement in the first method is told and not counted, and the class is left as it
was. -/
theorem substituted_uncounted :
    ¬ ∀ (s : Settings) (hierarchy : Hierarchy) (entries : List Entry) (draws : Draws),
      let run := (ofEntries s hierarchy entries draws).1
      run.events.countP (·.isSubstituted) = run.summary.substitutions ∧
        run.events.countP (·.isMethodFailed) = run.summary.failedMethods ∧
        run.events.countP (·.isClassFailed) = run.summary.failedClasses := by
  intro h
  let entry : Entry := .file "A.class" namelessBytes
  have hrun : (let run := (ofEntries (.ofRules .chained) ⟨[], []⟩ [entry] (.ofSeed 0)).1
      run.events.countP (·.isSubstituted) = 1 ∧ run.summary.substitutions = 0) := by
    decide +kernel
  obtain ⟨htold, hcounted⟩ := hrun
  have heq := (h (.ofRules .chained) ⟨[], []⟩ [entry] (.ofSeed 0)).1
  rw [htold, hcounted] at heq
  cases heq

end Run

end ClassText
