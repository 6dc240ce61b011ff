import ClassText.Proofs.Rewriting.Independence
import ClassText.Proofs.Run.Entries
import Mathlib.Data.List.FinRange

/-!
# Entries in another order

The entries of an archive are worked on one after the other, and have two things in
common: the random words, and the hierarchy that knows all their classes. If the rules
draw nothing, what becomes of an entry depends on the hierarchy alone
(`results_eq_map`). The hierarchy gives the same answers in whatever order the classes
came, if no two of them have one name: of two with one name the first counts, and
another one would be the first. And an entry in which there is no class does not change
the hierarchy at all. `ofEntries_independent` puts this together.
-/

namespace ClassText

namespace Settings

variable {s : Settings} {h h' : Hierarchy}

theorem processEntry_of_alike (halike : h.Alike h') : s.processEntry h = s.processEntry h' := by
  funext e content
  unfold processEntry processClass
  simp only [ClassFile.rewrite_of_alike halike]

theorem spares_processClass (hrules : s.rules.DrawNothing) (known : Hierarchy) (e : Entry)
    (c : ClassFile) : Draws.Spares (s.processClass known e c) := by
  intro draws draws'
  unfold processClass
  simp only [Draws.run_bind, Draws.run_get, Draws.run_set,
    c.rewrite_of_drawNothing hrules known draws draws']
  cases (c.rewrite s.rules known draws).outcome with
  | error error => rfl
  | ok done =>
    dsimp only
    split
    · rfl
    · cases done.classFile.toBytes <;> rfl

theorem spares_processEntry (hrules : s.rules.DrawNothing) (known : Hierarchy) (e : Entry)
    (content : EntryContent) : Draws.Spares (s.processEntry known e content) := by
  cases content with
  | noClass => exact Draws.spares_pure _
  | broken error => exact Draws.spares_pure _
  | classFile c info =>
    rw [processEntry]
    split
    · exact spares_processClass hrules known e c
    · exact Draws.spares_pure _

end Settings

/-! ## The classes of the entries -/

/-- If there is a class in each of the entries, the two have different names. -/
def Entry.IsApart (e e' : Entry) : Prop :=
  ∀ c info c' info', e.Holds c info → e'.Holds c' info' → info.name ≠ info'.name

theorem Entry.isApart_of_name?_ne {e e' : Entry}
    (h : (EntryContent.ofEntry e).info?.map (·.name) ≠
      (EntryContent.ofEntry e').info?.map (·.name)) : e.IsApart e' := by
  intro c info c' info' hholds hholds' hname
  rw [hholds.content_eq, hholds'.content_eq] at h
  exact h (congrArg some hname)

theorem Entry.holds_of_info? {e : Entry} {info : ClassInfo}
    (h : (EntryContent.ofEntry e).info? = some info) : ∃ c, e.Holds c info := by
  have hcontent := EntryContent.hasContent_ofEntry e
  cases hfound : EntryContent.ofEntry e with
  | classFile c info' =>
    rw [hfound] at h hcontent
    obtain rfl := Option.some.inj h
    cases hcontent with
    | classFile hholds => exact ⟨c, hholds⟩
  | _ =>
    rw [hfound] at h
    cases h

theorem Entry.info?_eq_none {e : Entry}
    (h : e.isDirectory = true ∨ ¬ClassFile.magic <+: e.bytes ∨
      ∃ error, (ClassFile.ofBytes e.bytes >>= ClassInfo.ofClassFile) = .error error) :
    (EntryContent.ofEntry e).info? = none := by
  rw [Option.eq_none_iff_forall_ne_some]
  intro info hinfo
  obtain ⟨c, hfile, hread, hplaced⟩ := Entry.holds_of_info? hinfo
  rcases h with hdirectory | hmagic | ⟨error, herror⟩
  · rw [hfile] at hdirectory
    cases hdirectory
  · rw [ClassFile.ofBytes_eq_notClassFile_iff.mpr hmagic] at hread
    cases hread
  · rw [hread] at herror
    cases herror.symm.trans hplaced

theorem Settings.processEntry_of_info?_eq_none (s : Settings) (known : Hierarchy) (e : Entry)
    {content : EntryContent} (h : content.info? = none) (draws : Draws) :
    (s.processEntry known e content draws).1.entry = e := by
  cases content with
  | noClass => rfl
  | broken error => rfl
  | classFile c info => cases h

namespace Hierarchy

variable {hierarchy : Hierarchy} {entries entries' : List Entry}

theorem alike_withEntries (hentries : entries.Pairwise Entry.IsApart)
    (hperm : entries.Perm entries') :
    (hierarchy.withEntries entries).Alike (hierarchy.withEntries entries') := by
  refine alike_foldl_add (hentries.filterMap _ ?_) (hperm.filterMap _)
  intro e e' hapart info hinfo info' hinfo'
  obtain ⟨c, hholds⟩ := Entry.holds_of_info? hinfo
  obtain ⟨c', hholds'⟩ := Entry.holds_of_info? hinfo'
  exact hapart c info c' info' hholds hholds'

theorem withEntries_insert {e : Entry} (h : (EntryContent.ofEntry e).info? = none) :
    hierarchy.withEntries (entries ++ e :: entries') =
      hierarchy.withEntries (entries ++ entries') := by
  rw [withEntries, withEntries, List.filterMap_append, List.filterMap_append,
    List.filterMap_cons_none (f := fun e => (EntryContent.ofEntry e).info?) h]

end Hierarchy

/-! ## Runs -/

theorem Summary.ofOutcomes_perm {outcomes outcomes' : List EntryOutcome}
    (h : outcomes.Perm outcomes') : ofOutcomes outcomes = ofOutcomes outcomes' := by
  have htotal (number : EntryOutcome → Nat) :
      EntryOutcome.total number outcomes = EntryOutcome.total number outcomes' :=
    h.foldr_eq' (fun a _ b _ n => Nat.add_left_comm (number b) (number a) n) 0
  rw [ofOutcomes, ofOutcomes, h.length_eq, h.countP_eq, h.countP_eq, h.countP_eq, htotal, htotal]

namespace Run

variable {s : Settings} (hrules : s.rules.DrawNothing) (hierarchy : Hierarchy)
include hrules

/-- If the rules draw nothing, what becomes of an entry depends on the other ones only through the
classes that are known. -/
theorem results_eq_map (entries : List Entry) (draws draws' : Draws) :
    results s hierarchy entries draws = entries.map fun e =>
      (s.processEntry (hierarchy.withEntries entries) e (EntryContent.ofEntry e) draws').1 :=
  Draws.mapM_of_spares (fun e => Settings.spares_processEntry hrules _ e _) draws draws' entries

theorem results_eq_map_of_alike {known : Hierarchy} {entries : List Entry}
    (halike : (hierarchy.withEntries entries).Alike known) (draws draws' : Draws) :
    results s hierarchy entries draws = entries.map fun e =>
      (s.processEntry known e (EntryContent.ofEntry e) draws').1 := by
  rw [results_eq_map hrules hierarchy entries draws draws',
    Settings.processEntry_of_alike halike]

/-- If the rules draw nothing, the entries are worked on independently of each other. If their
classes have different names, they can stand in any order: each comes back as before, where it now
stands, and the summary is the same. And an entry in which there is no class can be put in anywhere:
it comes back as it is, and all other entries come back as before. -/
theorem ofEntries_independent (draws draws' : Draws) :
    (∀ entries : List Entry, entries.Pairwise Entry.IsApart →
      ∀ σ : Equiv.Perm (Fin entries.length),
        let run := (ofEntries s hierarchy entries draws).1
        let other := (ofEntries s hierarchy (List.ofFn fun i => entries[σ i]) draws').1
        other.entries.length = entries.length ∧
          (∀ i : Fin entries.length, other.entries[i]? = run.entries[σ i]?) ∧
          other.summary = run.summary) ∧
    ∀ (before after : List Entry) (e : Entry),
      (e.isDirectory = true ∨ ¬ClassFile.magic <+: e.bytes ∨
        ∃ error, (ClassFile.ofBytes e.bytes >>= ClassInfo.ofClassFile) = .error error) →
        let run := (ofEntries s hierarchy (before ++ after) draws).1
        let other := (ofEntries s hierarchy (before ++ e :: after) draws').1
        other.entries =
          run.entries.take before.length ++ e :: run.entries.drop before.length := by
  refine ⟨fun entries hentries σ => ?_, fun before after e he => ?_⟩
  · have hperm : (List.ofFn fun i => entries[σ i]).Perm entries := by
      have h := σ.ofFn_comp_perm fun i => entries[i.val]
      rwa [List.ofFn_getElem] at h
    let known := hierarchy.withEntries entries
    let become (e : Entry) := (s.processEntry known e (EntryContent.ofEntry e) draws).1
    have hrun : results s hierarchy entries draws = entries.map become :=
      results_eq_map hrules hierarchy entries draws draws
    have hother : results s hierarchy (List.ofFn fun i => entries[σ i]) draws' =
        (List.ofFn fun i => entries[σ i]).map become :=
      results_eq_map_of_alike hrules hierarchy
        (Hierarchy.alike_withEntries hentries hperm.symm).symm draws' draws
    dsimp only
    rw [ofEntries_eq, ofEntries_eq, hrun, hother]
    refine ⟨by simp, fun i => by simp, ?_⟩
    exact Summary.ofOutcomes_perm ((hperm.map become).map _)
  · have hinfo := Entry.info?_eq_none he
    let known := hierarchy.withEntries (before ++ after)
    let become (e : Entry) := (s.processEntry known e (EntryContent.ofEntry e) draws).1
    have hrun : results s hierarchy (before ++ after) draws = (before ++ after).map become :=
      results_eq_map hrules hierarchy _ draws draws
    have hother : results s hierarchy (before ++ e :: after) draws' =
        (before ++ e :: after).map become := by
      rw [results_eq_map hrules hierarchy _ draws' draws, Hierarchy.withEntries_insert hinfo]
    have hkept : (become e).entry = e := s.processEntry_of_info?_eq_none known e hinfo draws
    dsimp only
    rw [ofEntries_eq, ofEntries_eq, hrun, hother]
    simp [hkept]

omit hrules

/-- A class with nothing in it. -/
def plainBytes : Bytes :=
  [202, 254, 186, 190, 0, 0, 0, 49, 0, 3, 1, 0, 1, 66, 7, 0, 1, 0, 0, 0, 2, 0, 0, 0, 0, 0, 0, 0, 0,
    0, 0]

theorem ofEntries_independent_pair :
    let loading : Entry := .file "A.class" ClassFile.loadingBytes
    let plain : Entry := .file "B.class" plainBytes
    let directory : Entry := .directory "META-INF/"
    let run := (ofEntries (.ofRules .chained) ⟨[], []⟩ [loading, plain] (.ofSeed 0)).1
    let swapped := (ofEntries (.ofRules .chained) ⟨[], []⟩ [plain, loading] (.ofSeed 1)).1
    let longer := (ofEntries (.ofRules .chained) ⟨[], []⟩ [loading, directory, plain] (.ofSeed 1)).1
    Rules.chained.DrawNothing ∧ [loading, plain].Pairwise Entry.IsApart ∧
      directory.isDirectory = true ∧
      swapped.entries[0]? = run.entries[1]? ∧ swapped.summary = run.summary ∧
      longer.entries = run.entries.take 1 ++ directory :: run.entries.drop 1 := by
  intro loading plain directory run swapped longer
  have hrules : Rules.chained.DrawNothing := by
    refine Rules.drawNothing_of_policies fun rule hrule draws => ?_
    rcases List.mem_pair.mp hrule with rfl | rfl <;> rfl
  have hentries : [loading, plain].Pairwise Entry.IsApart :=
    List.pairwise_pair.mpr (Entry.isApart_of_name?_ne (by decide +kernel))
  obtain ⟨horder, hinsert⟩ := ofEntries_independent (s := .ofRules .chained) hrules ⟨[], []⟩
    (.ofSeed 0) (.ofSeed 1)
  obtain ⟨-, hplaces, hsummary⟩ := horder [loading, plain] hentries (Equiv.swap 0 1)
  exact ⟨hrules, hentries, rfl, hplaces 0, hsummary, hinsert [loading] [plain] directory (.inl rfl)⟩

end Run

end ClassText
