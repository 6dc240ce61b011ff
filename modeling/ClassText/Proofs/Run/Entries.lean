import ClassText.Proofs.ClassFile.Diagnosis
import ClassText.Proofs.Rewriting.Difference
import ClassText.Run

/-!
# What becomes of the entries of an archive

Every entry comes back in its place, and all of it but its bytes is as it was.
`Settings.Exit` lists the ways in which the work on an entry can end: there is
one in which the entry has other bytes, and whatever fails on the way to it
leaves the bytes as they were, even though methods of the class may have been
rewritten by then. `ofEntries_exits` says so for a whole run, and that the
summary counts these ends.
-/

namespace ClassText

/-! ## Entries that hold a class -/

/-- The entry holds a class, and it can be told where the class stands. -/
structure Entry.Holds (e : Entry) (c : ClassFile) (info : ClassInfo) : Prop where
  file : e.isDirectory = false
  read : ClassFile.ofBytes e.bytes = .ok c
  placed : ClassInfo.ofClassFile c = .ok info

theorem ClassInfo.name_of_ofClassFile {c : ClassFile} {info : ClassInfo}
    (h : ClassInfo.ofClassFile c = .ok info) : c.name = .ok info.name := by
  obtain ⟨name, hname, h⟩ := Success.bind_eq_ok.mp h
  obtain ⟨checked, hchecked, h⟩ := Success.bind_eq_ok.mp h
  obtain ⟨_, -, h⟩ := Success.bind_eq_ok.mp h
  obtain ⟨_, -, h⟩ := Success.bind_eq_ok.mp h
  obtain ⟨_, -, h⟩ := Success.bind_eq_ok.mp h
  obtain ⟨_, -, h⟩ := Success.bind_eq_ok.mp h
  obtain rfl := Except.ok.inj h
  rw [hname, (ClassName.check_eq_ok.mp (Success.mapError_eq_ok.mp hchecked)).1]

theorem Entry.Holds.content_eq {e : Entry} {c : ClassFile} {info : ClassInfo}
    (h : e.Holds c info) : EntryContent.ofEntry e = .classFile c info := by
  rw [EntryContent.ofEntry, h.file, if_neg Bool.false_ne_true, EntryContent.ofBytes, h.read]
  dsimp only
  rw [h.placed]

/-- What is found in an entry. -/
inductive Entry.HasContent (e : Entry) : EntryContent → Prop
  | directory (h : e.isDirectory = true) : HasContent e .noClass
  | noClass (hfile : e.isDirectory = false) (h : ¬ClassFile.magic <+: e.bytes) :
      HasContent e .noClass
  /-- There should be a class, but it cannot be read, or it cannot be told where it stands. -/
  | broken {error : ClassError} (hfile : e.isDirectory = false)
      (hmagic : ClassFile.magic <+: e.bytes)
      (h : (ClassFile.ofBytes e.bytes >>= ClassInfo.ofClassFile) = .error error) :
      HasContent e (.broken error)
  | classFile {c : ClassFile} {info : ClassInfo} (h : e.Holds c info) :
      HasContent e (.classFile c info)

theorem EntryContent.hasContent_ofEntry (e : Entry) : e.HasContent (ofEntry e) := by
  cases hdirectory : e.isDirectory with
  | true =>
    rw [ofEntry, if_pos hdirectory]
    exact .directory hdirectory
  | false =>
    rw [ofEntry, hdirectory, if_neg Bool.false_ne_true, ofBytes]
    by_cases hmagic : ClassFile.magic <+: e.bytes
    · split
      · next hread => exact (ClassFile.ofBytes_eq_notClassFile_iff.mp hread hmagic).elim
      · next error _ hread =>
        exact .broken hdirectory hmagic (Success.bind_eq_error.mpr (.inl hread))
      · next c hread =>
        split
        · next error hinfo =>
          exact .broken hdirectory hmagic (Success.bind_eq_error.mpr (.inr ⟨c, hread, hinfo⟩))
        · next info hinfo => exact .classFile ⟨hdirectory, hread, hinfo⟩
    · rw [ClassFile.ofBytes_eq_notClassFile_iff.mpr hmagic]
      exact .noClass hdirectory hmagic

/-- All classes of an archive are known, before others of the same name. -/
def Hierarchy.withEntries (hierarchy : Hierarchy) (entries : List Entry) : Hierarchy :=
  (entries.filterMap fun e => (EntryContent.ofEntry e).info?).foldl Hierarchy.add hierarchy

/-! ## How the work on an entry ends -/

/-- What becomes of an entry, given the classes that are known and the random words that are left;
and what is left of these. -/
inductive Settings.Exit (s : Settings) (known : Hierarchy) (draws : Draws) (e : Entry) :
    ProcessedEntry → Draws → Prop
  | noClass (h : e.HasContent .noClass) : Exit s known draws e ⟨e, .passedThrough, []⟩ draws
  | malformed {error : ClassError} (h : e.HasContent (.broken error)) :
      Exit s known draws e ⟨e, .failed {}, []⟩ draws
  /-- The settings do not ask for the class. -/
  | filtered {c : ClassFile} {info : ClassInfo} (hholds : e.Holds c info)
      (h : s.matchesClass info.name = false) : Exit s known draws e ⟨e, .kept {}, []⟩ draws
  /-- The work on the class broke off. -/
  | unfinished {c : ClassFile} {info : ClassInfo} {error : ClassError} (hholds : e.Holds c info)
      (hmatches : s.matchesClass info.name = true)
      (h : (c.rewrite s.rules known draws).outcome = .error error) :
      Exit s known draws e ⟨e, .failed {}, (c.rewrite s.rules known draws).events ++
        [.classFailed e.name error]⟩ (c.rewrite s.rules known draws).draws
  /-- No instruction of the class loads another text. -/
  | unchanged {c : ClassFile} {info : ClassInfo} {done : RewrittenClass}
      (hholds : e.Holds c info) (hmatches : s.matchesClass info.name = true)
      (h : (c.rewrite s.rules known draws).outcome = .ok done)
      (hchanged : done.report.changed = false) :
      Exit s known draws e ⟨e, .kept done.report, (c.rewrite s.rules known draws).events⟩
        (c.rewrite s.rules known draws).draws
  /-- The new class cannot be written. -/
  | unwritten {c : ClassFile} {info : ClassInfo} {done : RewrittenClass} {error : ClassError}
      (hholds : e.Holds c info) (hmatches : s.matchesClass info.name = true)
      (h : (c.rewrite s.rules known draws).outcome = .ok done)
      (hchanged : done.report.changed = true) (hwrite : done.classFile.toBytes = .error error) :
      Exit s known draws e ⟨e, .failed done.report, (c.rewrite s.rules known draws).events ++
        [.classFailed e.name error]⟩ (c.rewrite s.rules known draws).draws
  | rewritten {c : ClassFile} {info : ClassInfo} {done : RewrittenClass} {bytes : Bytes}
      (hholds : e.Holds c info) (hmatches : s.matchesClass info.name = true)
      (h : (c.rewrite s.rules known draws).outcome = .ok done)
      (hchanged : done.report.changed = true) (hwrite : done.classFile.toBytes = .ok bytes) :
      Exit s known draws e
        ⟨{ e with bytes }, .rewritten done.report, (c.rewrite s.rules known draws).events⟩
        (c.rewrite s.rules known draws).draws

theorem Draws.run_get (draws : Draws) : (get : Drawing Draws) draws = (draws, draws) := rfl

theorem Draws.run_set (draws other : Draws) :
    (set other : Drawing PUnit) draws = (⟨⟩, other) := rfl

namespace Settings

open Draws

variable {s : Settings} {known : Hierarchy} {draws left : Draws} {e : Entry}

theorem processClass_exit {c : ClassFile} {info : ClassInfo} (hholds : e.Holds c info)
    (hmatches : s.matchesClass info.name = true) :
    s.Exit known draws e (s.processClass known e c draws).1 (s.processClass known e c draws).2 := by
  unfold processClass
  simp only [Draws.run_bind, run_get, run_set]
  cases h : (c.rewrite s.rules known draws).outcome with
  | error error => exact .unfinished hholds hmatches h
  | ok done =>
    dsimp only
    cases hchanged : done.report.changed with
    | false => exact .unchanged hholds hmatches h hchanged
    | true =>
      rw [Bool.not_true, if_neg Bool.false_ne_true]
      cases hwrite : done.classFile.toBytes with
      | error error => exact .unwritten hholds hmatches h hchanged hwrite
      | ok bytes => exact .rewritten hholds hmatches h hchanged hwrite

theorem processEntry_exit :
    s.Exit known draws e (s.processEntry known e (EntryContent.ofEntry e) draws).1
      (s.processEntry known e (EntryContent.ofEntry e) draws).2 := by
  have hcontent := EntryContent.hasContent_ofEntry e
  cases hfound : EntryContent.ofEntry e with
  | noClass => exact .noClass (hfound ▸ hcontent)
  | broken error => exact .malformed (hfound ▸ hcontent)
  | classFile c info =>
    rw [hfound] at hcontent
    cases hcontent with
    | classFile hholds =>
    have happlies : s.appliesTo c = s.matchesClass info.name := by
      rw [appliesTo, ClassInfo.name_of_ofClassFile hholds.placed]
    rw [processEntry, happlies]
    cases hmatches : s.matchesClass info.name with
    | false => exact .filtered hholds hmatches
    | true => exact processClass_exit hholds hmatches

/-- The bytes are those of the class in the entry, after the rules have changed a text in it. -/
def Replaces (s : Settings) (known : Hierarchy) (draws : Draws) (e : Entry) (bytes : Bytes) :
    Prop :=
  ∃ c info done, e.Holds c info ∧ s.matchesClass info.name = true ∧
    (c.rewrite s.rules known draws).outcome = .ok done ∧ done.report.changed = true ∧
    done.classFile.toBytes = .ok bytes

/-- Of an entry nothing but its bytes is replaced, and they are replaced exactly if the class counts
as rewritten. These bytes are other ones than before. -/
theorem Exit.entry_spec {result : ProcessedEntry} (h : s.Exit known draws e result left) :
    result.entry = { e with bytes := result.entry.bytes } ∧
      (result.entry.bytes ≠ e.bytes ↔ result.outcome.isRewritten = true) ∧
      (result.outcome.isRewritten = true → s.Replaces known draws e result.entry.bytes) := by
  cases h with
  | rewritten hholds hmatches hdone hchanged hwrite =>
    exact ⟨rfl, ⟨fun _ => rfl, fun _ =>
      ClassFile.toBytes_ne_of_rewrite hholds.read hdone hchanged hwrite⟩,
      fun _ => ⟨_, _, _, hholds, hmatches, hdone, hchanged, hwrite⟩⟩
  | _ => exact ⟨rfl, ⟨fun hne => (hne rfl).elim, fun h => nomatch h⟩, fun h => nomatch h⟩

theorem processEntry_of_replaces {bytes : Bytes} (h : s.Replaces known draws e bytes) :
    ∃ report events, (s.processEntry known e (EntryContent.ofEntry e) draws).1 =
      ⟨{ e with bytes }, .rewritten report, events⟩ := by
  obtain ⟨c, info, done, hholds, hmatches, hdone, hchanged, hwrite⟩ := h
  have happlies : s.appliesTo c = true := by
    rw [appliesTo, ClassInfo.name_of_ofClassFile hholds.placed]
    exact hmatches
  refine ⟨done.report, (c.rewrite s.rules known draws).events, ?_⟩
  rw [hholds.content_eq, processEntry, if_pos happlies]
  unfold processClass
  simp only [Draws.run_bind, run_get, run_set, hdone, hchanged, hwrite]
  rfl

theorem bytes_ne_iff_replaces :
    (s.processEntry known e (EntryContent.ofEntry e) draws).1.entry.bytes ≠ e.bytes ↔
      ∃ bytes, s.Replaces known draws e bytes := by
  obtain ⟨-, hiff, hreplaces⟩ := (@processEntry_exit s known draws e).entry_spec
  constructor
  · exact fun hne => ⟨_, hreplaces (hiff.mp hne)⟩
  · rintro ⟨bytes, h⟩
    obtain ⟨report, events, heq⟩ := processEntry_of_replaces h
    rw [hiff, heq]
    rfl

end Settings

/-! ## Runs -/

/-- The class in the entry did not fail, whether or not it was rewritten. -/
def EntryOutcome.isFinished : EntryOutcome → Bool
  | kept _ | rewritten _ => true
  | passedThrough | failed _ => false

theorem ProcessedEntry.length_eq_add (results : List ProcessedEntry) :
    results.length = results.countP (·.outcome.isPassedThrough) +
      results.countP (·.outcome.isFailed) + results.countP (·.outcome.isFinished) := by
  induction results with
  | nil => rfl
  | cons r results ih =>
    obtain ⟨e, outcome, events⟩ := r
    cases outcome <;>
      simp [EntryOutcome.isPassedThrough, EntryOutcome.isFailed, EntryOutcome.isFinished, ih] <;>
      omega

namespace Run

variable (s : Settings) (hierarchy : Hierarchy) (entries : List Entry) (draws : Draws)

/-- What becomes of the entries, one after the other. -/
def results : List ProcessedEntry :=
  (entries.mapM (fun e => s.processEntry (hierarchy.withEntries entries) e
    (EntryContent.ofEntry e)) draws).1

theorem ofEntries_eq : (ofEntries s hierarchy entries draws).1 =
    { entries := (results s hierarchy entries draws).map (·.entry)
      summary := Summary.ofOutcomes ((results s hierarchy entries draws).map (·.outcome))
      events := (entries.flatMap fun e => (EntryContent.ofEntry e).opening e.name) ++
        (results s hierarchy entries draws).flatMap (·.events) } := by
  unfold ofEntries results Hierarchy.withEntries
  simp only [Draws.run_bind, Draws.run_pure, List.mapM_map, List.filterMap_map, List.flatMap_map]
  rfl

theorem length_results : (results s hierarchy entries draws).length = entries.length :=
  Draws.length_mapM _ _ _

/-- The entries are worked on in stages: for each of them there are the random words that the one
before has left. -/
theorem results_stages : ∃ stage : Nat → Draws, stage 0 = draws ∧ ∀ i e, entries[i]? = some e →
    (results s hierarchy entries draws)[i]? = some (s.processEntry (hierarchy.withEntries entries) e
      (EntryContent.ofEntry e) (stage i)).1 ∧
    stage (i + 1) = (s.processEntry (hierarchy.withEntries entries) e
      (EntryContent.ofEntry e) (stage i)).2 :=
  Draws.mapM_stages entries draws

/-- The work on every entry ends in one of the known ways, and what it leaves of the random words is
there for the next one. -/
theorem results_exits : ∃ stage : Nat → Draws, stage 0 = draws ∧ ∀ i e, entries[i]? = some e →
    ∃ result, (results s hierarchy entries draws)[i]? = some result ∧
      s.Exit (hierarchy.withEntries entries) (stage i) e result (stage (i + 1)) := by
  obtain ⟨stage, hfirst, hstage⟩ := results_stages s hierarchy entries draws
  refine ⟨stage, hfirst, fun i e he => ?_⟩
  obtain ⟨hresult, hnext⟩ := hstage i e he
  exact ⟨_, hresult, hnext ▸ Settings.processEntry_exit⟩

theorem forall₂_exits : List.Forall₂ (fun e r => ∃ draws left,
    s.Exit (hierarchy.withEntries entries) draws e r left) entries
      (results s hierarchy entries draws) := by
  obtain ⟨stage, -, hexits⟩ := results_exits s hierarchy entries draws
  refine List.forall₂_iff_get.mpr
    ⟨(length_results s hierarchy entries draws).symm, fun i hi hi' => ?_⟩
  obtain ⟨result, hresult, h⟩ := hexits i _ (List.getElem?_eq_getElem hi)
  rw [List.getElem?_eq_getElem hi'] at hresult
  obtain rfl := Option.some.inj hresult
  exact ⟨_, _, h⟩

theorem countP_zip_bytes {results : List ProcessedEntry} :
    ∀ {entries : List Entry}, List.Forall₂ (fun e (r : ProcessedEntry) =>
        r.entry.bytes ≠ e.bytes ↔ r.outcome.isRewritten = true) entries results →
      (entries.zip (results.map (·.entry))).countP (fun p => p.2.bytes ≠ p.1.bytes) =
        (results.map (·.outcome)).countP (·.isRewritten) := by
  induction results with
  | nil =>
    rintro _ ⟨⟩
    rfl
  | cons r results ih =>
    rintro _ (_ | ⟨hr, hrest⟩)
    simp only [List.map_cons, List.zip_cons_cons, List.countP_cons, ih hrest, decide_eq_true_eq, hr]

/-- How the work on the entries of an archive ends, given what is left of the random words before
each of them and what becomes of it: every entry comes back in its place, and all of it but its
bytes is as it was. -/
structure Exits (s : Settings) (known : Hierarchy) (entries : List Entry) (draws : Draws)
    (run : Run) (stage : Nat → Draws) (results : List ProcessedEntry) : Prop where
  first : stage 0 = draws
  length : results.length = entries.length
  places : run.entries = results.map (·.entry)
  exits : ∀ i e, entries[i]? = some e → ∃ result, results[i]? = some result ∧
    s.Exit known (stage i) e result (stage (i + 1)) ∧
    result.entry = { e with bytes := result.entry.bytes }
  /-- The bytes are replaced exactly where the settings ask for the class in an entry, the work on
  it comes to an end and has changed a text, and the new class can be written. Then they are those
  of the new class. -/
  replaced : ∀ i e result, entries[i]? = some e → results[i]? = some result →
    (result.entry.bytes ≠ e.bytes ↔ ∃ bytes, s.Replaces known (stage i) e bytes) ∧
    ∀ bytes, s.Replaces known (stage i) e bytes → result.entry.bytes = bytes
  total : run.summary.entries = entries.length
  passedThrough : run.summary.passthroughEntries = results.countP (·.outcome.isPassedThrough)
  failed : run.summary.failedClasses = results.countP (·.outcome.isFailed)
  finished : run.summary.entries = run.summary.passthroughEntries + run.summary.failedClasses +
    results.countP (·.outcome.isFinished)
  rewritten : run.summary.rewrittenClasses =
    (entries.zip run.entries).countP fun p => p.2.bytes ≠ p.1.bytes

theorem ofEntries_exits : ∃ stage results, Exits s (hierarchy.withEntries entries) entries draws
    (ofEntries s hierarchy entries draws).1 stage results := by
  obtain ⟨stage, hfirst, hstage⟩ := results_stages s hierarchy entries draws
  have hlen := length_results s hierarchy entries draws
  rw [ofEntries_eq]
  refine ⟨stage, results s hierarchy entries draws, {
    first := hfirst, length := hlen, places := rfl, exits := fun i e he => ?_,
    replaced := fun i e result he hresult => ?_, total := (List.length_map _).trans hlen,
    passedThrough := List.countP_map, failed := List.countP_map, finished := ?_, rewritten := ?_ }⟩
  · obtain ⟨hresult, hnext⟩ := hstage i e he
    exact ⟨_, hresult, hnext ▸ Settings.processEntry_exit, Settings.processEntry_exit.entry_spec.1⟩
  · obtain rfl := Option.some.inj ((hstage i e he).1.symm.trans hresult)
    refine ⟨Settings.bytes_ne_iff_replaces, fun bytes hreplaces => ?_⟩
    obtain ⟨report, events, heq⟩ := Settings.processEntry_of_replaces hreplaces
    rw [heq]
  · simp only [Summary.ofOutcomes, List.length_map, List.countP_map]
    exact ProcessedEntry.length_eq_add _
  · refine (countP_zip_bytes ?_).symm
    exact (forall₂_exits s hierarchy entries draws).imp fun e r ⟨_, _, h⟩ => h.entry_spec.2.1

end Run

end ClassText
