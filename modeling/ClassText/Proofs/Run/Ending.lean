import ClassText.Proofs.Frame.Termination
import ClassText.Proofs.Rewriting.Ending
import ClassText.Proofs.Rewriting.Unmoved
import ClassText.Proofs.Run.Entries
import Mathlib.Data.Part

/-!
# Runs that never end

A run comes back only if the work on every entry ends; of an entry with a class that
is asked for, that is the work on the class. So a run is a partial function
(`Run.process`). It is there exactly if nothing that is told of the run stands for
work without end (`Run.dom_process_iff`), and whatever comes back has its entries in
their places (`Run.process_exits`).

One class is enough for a run not to come back: `Run.process_circling` is an archive
with nothing else in it.
-/

namespace ClassText

namespace Settings

variable {s : Settings} {known : Hierarchy} {draws : Draws} {e : Entry} {entries : List Entry}

/-- The work on an entry ends. -/
def EntryEnds (s : Settings) (known : Hierarchy) (draws : Draws) (e : Entry) : Prop :=
  ∀ c info, e.Holds c info → s.matchesClass info.name = true → c.Ends s.rules known draws

/-- The work on the entries ends: on each of them in turn, with the random words that the one before
has left. -/
def EntriesEnd (s : Settings) (known : Hierarchy) : List Entry → Draws → Prop
  | [], _ => True
  | e :: rest, draws => s.EntryEnds known draws e ∧
      s.EntriesEnd known rest (s.processEntry known e (EntryContent.ofEntry e) draws).2

theorem tellsEndless_processClass {c : ClassFile} :
    TellsEndless (s.processClass known e c draws).1.events ↔
      TellsEndless (c.rewrite s.rules known draws).events := by
  have hfailed (error : ClassError) : ¬TellsEndless [.classFailed e.name error] := by
    rintro ⟨event, hevent, _, _, rfl, -⟩
    cases List.mem_singleton.mp hevent
  unfold processClass
  simp only [Draws.run_bind, Draws.run_get, Draws.run_set]
  rcases (c.rewrite s.rules known draws).outcome with error | ⟨changed, report⟩
  · exact tellsEndless_append.trans (or_iff_left (hfailed error))
  · dsimp only
    split
    · rfl
    · cases changed.toBytes with
      | ok bytes => rfl
      | error error => exact tellsEndless_append.trans (or_iff_left (hfailed error))

/-- The work on an entry ends exactly if it is told of no method that it does not. -/
theorem entryEnds_iff : s.EntryEnds known draws e ↔
    ¬TellsEndless (s.processEntry known e (EntryContent.ofEntry e) draws).1.events := by
  have hquiet : ¬TellsEndless [] := by
    rintro ⟨_, hmem, -⟩
    exact List.not_mem_nil hmem
  have hcontent := EntryContent.hasContent_ofEntry e
  cases hfound : EntryContent.ofEntry e with
  | noClass =>
    refine iff_of_true (fun c info hholds => ?_) hquiet
    cases hholds.content_eq.symm.trans hfound
  | broken error =>
    refine iff_of_true (fun c info hholds => ?_) hquiet
    cases hholds.content_eq.symm.trans hfound
  | classFile c info =>
    rw [hfound] at hcontent
    cases hcontent with
    | classFile hholds =>
    have happlies : s.appliesTo c = s.matchesClass info.name := by
      rw [appliesTo, ClassInfo.name_of_ofClassFile hholds.placed]
    have hends : s.EntryEnds known draws e ↔
        (s.matchesClass info.name = true → c.Ends s.rules known draws) := by
      refine ⟨fun h => h c info hholds, fun h c' info' hholds' => ?_⟩
      cases hholds'.content_eq.symm.trans hfound
      exact h
    rw [hends, processEntry, happlies]
    cases hmatches : s.matchesClass info.name with
    | false => exact iff_of_true (fun htrue => absurd htrue Bool.false_ne_true) hquiet
    | true =>
      rw [if_pos rfl, tellsEndless_processClass, ← ClassFile.ends_iff]
      exact forall_prop_of_true rfl

theorem entriesEnd_iff : s.EntriesEnd known entries draws ↔
    ¬TellsEndless (((entries.mapM fun e => s.processEntry known e (EntryContent.ofEntry e))
      draws).1.flatMap (·.events)) := by
  induction entries generalizing draws with
  | nil => exact iff_of_true trivial fun ⟨_, hmem, _⟩ => List.not_mem_nil hmem
  | cons e rest ih =>
    rw [EntriesEnd, entryEnds_iff, ih, List.mapM_cons, ← not_or, ← tellsEndless_append]
    rfl

end Settings

namespace Run

variable {s : Settings} {hierarchy : Hierarchy} {draws : Draws} {entries : List Entry}

/-- A run. Nothing comes back of it if the work on some entry does not end. -/
def process (s : Settings) (hierarchy : Hierarchy) (entries : List Entry) (draws : Draws) :
    Part Run :=
  Part.assert (s.EntriesEnd (hierarchy.withEntries entries) entries draws) fun _ =>
    Part.some (ofEntries s hierarchy entries draws).1

theorem process_of_ends (h : s.EntriesEnd (hierarchy.withEntries entries) entries draws) :
    process s hierarchy entries draws = Part.some (ofEntries s hierarchy entries draws).1 :=
  Part.assert_pos h

theorem process_of_not_ends (h : ¬s.EntriesEnd (hierarchy.withEntries entries) entries draws) :
    process s hierarchy entries draws = Part.none :=
  Part.assert_neg h

theorem not_tellsEndless_opening (name : String) (content : EntryContent) :
    ¬TellsEndless (content.opening name) := by
  rintro ⟨event, hevent, _, _, rfl, -⟩
  cases content with
  | broken error => cases List.mem_singleton.mp hevent
  | _ => cases hevent

theorem entriesEnd_iff_events : s.EntriesEnd (hierarchy.withEntries entries) entries draws ↔
    ¬TellsEndless (ofEntries s hierarchy entries draws).1.events := by
  have hopening : ¬TellsEndless
      (entries.flatMap fun e => (EntryContent.ofEntry e).opening e.name) := by
    rintro ⟨event, hevent, hendless⟩
    obtain ⟨e, -, hmem⟩ := List.mem_flatMap.mp hevent
    exact not_tellsEndless_opening _ _ ⟨event, hmem, hendless⟩
  rw [Settings.entriesEnd_iff, ofEntries_eq, tellsEndless_append, or_iff_right hopening]
  rfl

/-- A run comes back exactly if nothing that is told of it stands for work without end. -/
theorem dom_process_iff : (process s hierarchy entries draws).Dom ↔
    ¬TellsEndless (ofEntries s hierarchy entries draws).1.events := by
  rw [← entriesEnd_iff_events]
  exact ⟨fun h => h.1, fun h => ⟨h, trivial⟩⟩

/-- A run in which the work on every entry ends comes back, with the entries in their places. Each
of them is as it was but for its bytes, and these are replaced exactly by a rewritten class that
could be written. The summary counts how the entries end. -/
theorem process_exits
    (hends : s.EntriesEnd (hierarchy.withEntries entries) entries draws) :
    ∃ run stage results, process s hierarchy entries draws = Part.some run ∧
      Exits s (hierarchy.withEntries entries) entries draws run stage results ∧
      ¬TellsEndless run.events := by
  obtain ⟨stage, results, hexits⟩ := ofEntries_exits s hierarchy entries draws
  exact ⟨_, stage, results, process_of_ends hends, hexits, entriesEnd_iff_events.mp hends⟩

/-! ## A class that is worked on for ever -/

/-- A class with one method, whose code loads a string where `Code.circling` pushes null. There are
so many constants in the pool that the index of another string is long. -/
def circlingBytes : Bytes :=
  [202, 254, 186, 190, 0, 0, 0, 51, 1, 0, 1, 0, 1, 65, 7, 0, 1, 1, 0, 1, 109, 1, 0, 12, 40, 76,
    82, 59, 76, 66, 59, 76, 85, 59, 41, 86, 1, 0, 4, 67, 111, 100, 101, 1, 0, 1, 97, 8, 0, 6, 1, 0,
    13, 83, 116, 97, 99, 107, 77, 97, 112, 84, 97, 98, 108, 101, 1, 0, 19, 106, 97, 118, 97, 47,
    108, 97, 110, 103, 47, 84, 104, 114, 111, 119, 97, 98, 108, 101, 7, 0, 9, 1, 0, 1, 98] ++
  (List.replicate 122 [5, 0, 0, 0, 0, 0, 0, 0, 0]).flatten ++
  [0, 33, 0, 2, 0, 0, 0, 0, 0, 0, 0, 1, 0, 8, 0, 3, 0, 4, 0, 1, 0, 5, 0, 0, 0, 40, 0, 1, 0, 3, 0,
    0, 0, 8, 18, 7, 87, 43, 75, 44, 75, 177, 0, 1, 0, 2, 0, 7, 0, 2, 0, 0, 0, 1, 0, 8, 0, 0, 0, 6,
    0, 1, 66, 7, 0, 10, 0, 0]

def circlingSlots : List (Option Constant) :=
  [none, some (.utf8 "A"), some (.classRef 1), some (.utf8 "m"), some (.utf8 "(LR;LB;LU;)V"),
    some (.utf8 "Code"), some (.utf8 "a"), some (.string 6), some (.utf8 CodeAttribute.frameTable),
    some (.utf8 ClassName.throwable), some (.classRef 9), some (.utf8 "b")] ++
  (List.replicate 122 [some (.long 0), none]).flatten

/-- `Code.circling`, with another first instruction, which has two bytes to begin with. -/
def circlingCode (first : Instruction) : Code :=
  { Code.circling with
    instructions := Code.circling.instructions.set 0 first (by decide)
    sourceOffsets := #[0, 2, 3, 4, 5, 6, 7, 8]
    attributes := [⟨8, .raw [0, 1, 0x42, 7, 0, 10]⟩] }

def circlingMethod : Method := ⟨8, 3, 4, [⟨5, .code (circlingCode (.loadConstant 7 false))⟩]⟩

def circlingPool : ConstantPool := ⟨circlingSlots.toArray, by decide +kernel⟩

/-- What stands in these bytes. -/
def circlingClass : ClassFile :=
  ⟨⟨51, 0⟩, circlingPool, 0x21, 2, none, [], [], [circlingMethod], []⟩

theorem ofBytes_circlingBytes : ClassFile.ofBytes circlingBytes = .ok circlingClass :=
  ClassFile.ofBytes_eq_ok_of_slots (by decide +kernel)

/-- The pool with the new string, which has the index 256. -/
def circledPool : ConstantPool :=
  ⟨(circlingSlots ++ [some (Constant.string 11)]).toArray, by decide +kernel⟩

def circlingFlow (known : Hierarchy) : Flow :=
  { Flow.circling known with
    context := ⟨circledPool, "A", (circlingCode (.loadConstant 256 true)).instructions⟩ }

theorem flowOf_circlingCode (known : Hierarchy) :
    Analysis.flowOf (circlingCode (.loadConstant 256 true)) .circling circledPool known
      (.circling []) = .ok (circlingFlow known) := by
  have hrecorded : (circlingCode (.loadConstant 256 true)).recordedFrames circledPool
      (.circling []) = (Flow.circling .circling).recorded := by
    decide +kernel
  have hblocks : (circlingCode (.loadConstant 256 true)).blocks =
      (Flow.circling .circling).blocks := by
    decide +kernel
  have hflow : circlingFlow known = { circlingFlow known with
      recorded := (circlingCode (.loadConstant 256 true)).recordedFrames circledPool (.circling [])
      blocks := (circlingCode (.loadConstant 256 true)).blocks } := by
    rw [hrecorded, hblocks]
    rfl
  rw [hflow]
  rfl

theorem repoint_circlingCode :
    ((((circlingCode (.loadConstant 7 false)).loadedTexts .chained circlingPool
      (.ofSeed 0)).1.filter (·.isChanged)).foldlM Code.repoint
        (circlingCode (.loadConstant 7 false)) : PoolChange Code) circlingPool =
      (.ok (circlingCode (.loadConstant 256 true)), circledPool) := by
  have h : (fun run : Except ClassError Code × ConstantPool =>
      (run.1.toOption, run.2.slots.toList)) (((((circlingCode (.loadConstant 7 false)).loadedTexts
        .chained circlingPool (.ofSeed 0)).1.filter (·.isChanged)).foldlM Code.repoint
          (circlingCode (.loadConstant 7 false)) : PoolChange Code) circlingPool) =
      (some (circlingCode (.loadConstant 256 true)),
        circlingSlots ++ [some (Constant.string 11)]) := by
    decide +kernel
  obtain ⟨hcode, hslots⟩ := Prod.mk.inj h
  exact Prod.ext (Success.toOption_eq_some.mp hcode) (ConstantPool.eq_of_slots hslots)

theorem runsOn_circlingMethod_iff {known : Hierarchy} :
    ClassContext.RunsOn ⟨"A", ⟨51, 0⟩, .chained, known⟩ circlingMethod
        ⟨circlingPool, .ofSeed 0, [], {}⟩ ↔
      (circlingFlow known).loop? ((circlingFlow known).start (.circling [])) = none := by
  have hname : circlingMethod.nameText circlingPool = .ok "m" :=
    Success.toOption_eq_some.mp (by decide +kernel)
  have hdescriptor : circlingMethod.descriptorText circlingPool = .ok "(LR;LB;LU;)V" :=
    Success.toOption_eq_some.mp (by decide +kernel)
  have hentry : Analysis.entryOf (circlingCode (.loadConstant 256 true)) .circling =
      .ok (.circling []) := by
    decide +kernel
  constructor
  · rintro ⟨_, _, code, hname', hdescriptor', hcode, -, repointed, grown, hrepoint, -, entry, flow,
      hentry', hflow', hloop⟩
    obtain rfl := Except.ok.inj (hname.symm.trans hname')
    obtain rfl := Except.ok.inj (hdescriptor.symm.trans hdescriptor')
    obtain rfl : circlingCode (.loadConstant 7 false) = code := Option.some.inj hcode
    obtain ⟨hrepointed, rfl⟩ := Prod.mk.inj (repoint_circlingCode.symm.trans hrepoint)
    obtain rfl := Except.ok.inj hrepointed
    obtain rfl := Except.ok.inj (hentry.symm.trans hentry')
    obtain rfl := Except.ok.inj ((flowOf_circlingCode known).symm.trans hflow')
    exact hloop
  · intro hloop
    refine ⟨_, _, _, hname, hdescriptor, rfl, rfl, _, _, repoint_circlingCode,
      ⟨#[0, 3, 4, 5, 6, 7, 8, 9], #[0, 2, 3, 4, 5, 6, 7, 8], ?_, ?_, by decide⟩,
      .circling [], circlingFlow known, hentry, flowOf_circlingCode known, hloop⟩ <;>
    decide +kernel

/-- Whether a run comes back that has this class in its archive is a matter of what else is
known. -/
theorem entriesEnd_circling_iff (hierarchy : Hierarchy) :
    let entries : List Entry := [.file "A.class" circlingBytes]
    let flow := circlingFlow (hierarchy.add ⟨"A", none, [], false⟩)
    (Settings.ofRules .chained).EntriesEnd (hierarchy.withEntries entries) entries (.ofSeed 0) ↔
      flow.loop? (flow.start (.circling [])) ≠ none := by
  intro entries flow
  have hinfo : ClassInfo.ofClassFile circlingClass = .ok ⟨"A", none, [], false⟩ :=
    Success.toOption_eq_some.mp (by decide +kernel)
  have hholds : Entry.Holds (.file "A.class" circlingBytes) circlingClass
      ⟨"A", none, [], false⟩ := ⟨rfl, ofBytes_circlingBytes, hinfo⟩
  have hknown : hierarchy.withEntries entries = hierarchy.add ⟨"A", none, [], false⟩ := by
    rw [Hierarchy.withEntries, List.filterMap_cons, hholds.content_eq]
    rfl
  have hname : circlingClass.rewritableName = .ok "A" :=
    Success.toOption_eq_some.mp (by decide +kernel)
  rw [hknown]
  refine Iff.trans ?_ (not_congr runsOn_circlingMethod_iff)
  constructor
  · exact fun h => (h.1 _ _ hholds rfl _ hname).1
  · refine fun h => ⟨fun c info hother _ name hother' => ?_, trivial⟩
    obtain rfl := Except.ok.inj (hholds.read.symm.trans hother.read)
    obtain rfl := Except.ok.inj (hname.symm.trans hother')
    exact ⟨h, fun _ _ _ => trivial⟩

/-- Where only the class `B` is known, the run comes back. -/
theorem process_exits_circling :
    let entries : List Entry := [.file "A.class" circlingBytes]
    ∃ run stage results,
      process (.ofRules .chained) .gappy entries (.ofSeed 0) = Part.some run ∧
      Exits (.ofRules .chained) (Hierarchy.gappy.withEntries entries) entries (.ofSeed 0) run
        stage results ∧
      ¬TellsEndless run.events := by
  refine process_exits ((entriesEnd_circling_iff .gappy).mpr fun hnone => ?_)
  let flow := circlingFlow (Hierarchy.gappy.add ⟨"A", none, [], false⟩)
  have hsettled : (flow.settle 5 (flow.start (.circling []))).toOption.isSome = true := by
    decide +kernel
  cases hsettle : flow.settle 5 (flow.start (.circling [])) with
  | error e =>
    rw [hsettle] at hsettled
    cases hsettled
  | ok state => exact Option.some_ne_none _ ((Flow.loop?_of_settle hsettle nofun).symm.trans hnone)

/-- The state with which the handler is entered. -/
def loadedState : FlowState :=
  { Analysis.enteredState with
    frames := #[some (.circling []), some (.circling [LiveType.ofClass ClassName.string]),
      none, none, none, none, none] }

/-- If the class `R` is known, to which the type recorded for the first argument belongs, and its
superclass `B`, then nothing comes back of the run. -/
theorem process_circling :
    process (.ofRules .chained) .circling [.file "A.class" circlingBytes] (.ofSeed 0) =
      Part.none := by
  let flow := circlingFlow (Hierarchy.circling.add ⟨"A", none, [], false⟩)
  have hfirst : flow.step (flow.start (.circling [])) 0 [] = .ok loadedState := by decide +kernel
  have hsecond : flow.step loadedState 1 [] = .ok Analysis.circlingState := by decide +kernel
  have hcircle : flow.step Analysis.circlingState 1 [6] = .ok Analysis.circlingState := by
    decide +kernel
  have hloop : flow.loop? (flow.start (.circling [])) = none := calc
    flow.loop? (flow.start (.circling [])) = flow.loop? loadedState := by
      rw [Flow.loop?_of_cons rfl, hfirst]
    _ = flow.loop? Analysis.circlingState := by rw [Flow.loop?_of_cons rfl, hsecond]
    _ = none := Flow.loop?_of_circle rfl hcircle
  exact process_of_not_ends fun hends => (entriesEnd_circling_iff .circling).mp hends hloop

end Run

end ClassText
