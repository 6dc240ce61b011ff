import ClassText.Proofs.Frame.Faults
import ClassText.Proofs.Rewriting.Methods

/-!
# Rewriting that never ends

There is one loop in the work on a class that need not end: the one that follows
the blocks of a method whose frames are derived. In the work on a method it runs on
the code with new texts, if that code has moved and needs frames (`Code.RunsOn`);
all else that the work consists of comes to its end, if only with an error. So the
work on a class ends unless it comes to such a method (`ClassFile.Ends`).

The fault `unsettled` stands for what a loop without end does not return. It is
told of a method exactly if the work on the class does not get beyond that method
(`ClassFile.ends_iff`), so where the work ends, nothing depends on it.
-/

namespace ClassText

open ConstantPool PoolChange Success

/-- The error stands for blocks that are followed for ever. -/
def ClassError.IsEndless (e : ClassError) : Prop :=
  ∃ method offset, e = .frames method offset .unsettled

/-! ## Changes of a pool -/

namespace PoolChange

variable {α β : Type} {pool : ConstantPool}

/-- The change does not end if it finds this pool. -/
def RunsOn (change : PoolChange α) (pool : ConstantPool) : Prop :=
  ∃ e, (change pool).1 = .error e ∧ e.IsEndless

/-- The change ends, whatever pool it finds. -/
def Stops (change : PoolChange α) : Prop :=
  ∀ pool, ¬change.RunsOn pool

theorem runsOn_bind_iff {change : PoolChange α} {next : α → PoolChange β} :
    (change >>= next).RunsOn pool ↔ change.RunsOn pool ∨
      ∃ a grown, change pool = (.ok a, grown) ∧ (next a).RunsOn grown := by
  unfold RunsOn
  rw [run_bind]
  rcases change pool with ⟨e | a, grown⟩
  · dsimp only
    constructor
    · rintro ⟨_, heq, h⟩
      obtain rfl := Except.error.inj heq
      exact .inl ⟨e, rfl, h⟩
    · rintro (⟨_, heq, h⟩ | ⟨a, _, heq, -⟩)
      · obtain rfl := Except.error.inj heq
        exact ⟨e, rfl, h⟩
      · cases (Prod.mk.inj heq).1
  · dsimp only
    constructor
    · exact fun h => .inr ⟨a, grown, rfl, h⟩
    · rintro (⟨e, heq, -⟩ | ⟨_, _, heq, h⟩)
      · cases heq
      · obtain ⟨ha, rfl⟩ := Prod.mk.inj heq
        exact Except.ok.inj ha ▸ h

theorem runsOn_get_bind {next : ConstantPool → PoolChange β} :
    ((get : PoolChange ConstantPool) >>= next).RunsOn pool ↔ (next pool).RunsOn pool :=
  Iff.rfl

theorem stops_pure (a : α) : (pure a : PoolChange α).Stops := by
  rintro pool ⟨e, heq, -⟩
  cases heq

theorem stops_get : (get : PoolChange ConstantPool).Stops := by
  rintro pool ⟨e, heq, -⟩
  cases heq

theorem Stops.bind {change : PoolChange α} {next : α → PoolChange β} (h : change.Stops)
    (hnext : ∀ a, (next a).Stops) : (change >>= next).Stops := fun pool hruns =>
  (runsOn_bind_iff.mp hruns).elim (h pool) fun ⟨a, grown, _, hnextRuns⟩ => hnext a grown hnextRuns

/-- Before changes that end, the first one decides. -/
theorem runsOn_bind_stops {change : PoolChange α} {next : α → PoolChange β}
    (hnext : ∀ a, (next a).Stops) : (change >>= next).RunsOn pool ↔ change.RunsOn pool := by
  rw [runsOn_bind_iff]
  exact or_iff_left fun ⟨a, grown, _, h⟩ => hnext a grown h

/-- After a change that ends, the next one decides. -/
theorem Stops.runsOn_bind_iff {change : PoolChange α} {next : α → PoolChange β}
    (h : change.Stops) : (change >>= next).RunsOn pool ↔
      ∃ a grown, change pool = (.ok a, grown) ∧ (next a).RunsOn grown := by
  rw [PoolChange.runsOn_bind_iff]
  exact or_iff_right (h pool)

theorem stops_ofStep {step : ConstantPool → Except ClassError (α × ConstantPool)}
    (h : ∀ pool, FailsWith (¬·.IsEndless) (step pool)) : (ofStep step).Stops := by
  rintro pool ⟨e, heq, hendless⟩
  unfold ofStep at heq
  split at heq
  · cases heq
  · next hstep =>
    cases heq
    exact h pool e hstep hendless

theorem failsWith_push (pool : ConstantPool) (c : Constant) :
    FailsWith (¬·.IsEndless) (pool.push c) := by
  unfold push
  split
  · exact failsWith_ok
  · exact failsWith_error.mpr nofun

theorem stops_intern (c : Constant) : (intern c).Stops := by
  refine stops_ofStep fun pool => ?_
  unfold ConstantPool.intern
  split
  · exact failsWith_ok
  · exact failsWith_push pool c

theorem stops_internText (text : String) : (internText text).Stops := by
  refine stops_ofStep fun pool => ?_
  split
  · exact failsWith_ok
  · dsimp only
    split
    · exact failsWith_error.mpr nofun
    · exact failsWith_push pool _

theorem stops_internClass (name : String) : (internClass name).Stops :=
  (stops_internText name).bind fun _ => stops_intern _

theorem stops_ofExcept {result : Except ClassError α} (h : FailsWith (¬·.IsEndless) result) :
    (ofExcept result).Stops :=
  fun _ ⟨e, heq, hendless⟩ => h e heq hendless

theorem stops_assembly (result : Except AssemblyFault α) :
    (ofExcept (result.mapError .assembly)).Stops :=
  stops_ofExcept <| FailsWith.mapError (P := fun _ => True) (fun _ _ => trivial)
    fun _ _ ⟨_, _, h⟩ => nomatch h

theorem runsOn_layout_bind_iff {code : Array Instruction} {next : Array Nat → PoolChange β} :
    (ofExcept ((Assembled.layout code).mapError .assembly) >>= next).RunsOn pool ↔
      ∃ offsets, Assembled.layout code = .ok offsets ∧ (next offsets).RunsOn pool := by
  rw [(stops_assembly _).runsOn_bind_iff]
  constructor
  · rintro ⟨offsets, _, hrun, h⟩
    obtain ⟨hoffsets, rfl⟩ := Prod.mk.inj hrun
    exact ⟨offsets, mapError_eq_ok.mp hoffsets, h⟩
  · rintro ⟨offsets, hoffsets, h⟩
    exact ⟨offsets, pool, by rw [ofExcept, mapError_eq_ok.mpr hoffsets], h⟩

theorem stops_mapM {change : α → PoolChange β} {items : List α}
    (h : ∀ a ∈ items, (change a).Stops) : (items.mapM change).Stops :=
  mapM_closed (P := fun _ => Stops) stops_pure Stops.bind h

theorem stops_foldlM {change : β → α → PoolChange β} {items : List α} {b : β}
    (h : ∀ a ∈ items, ∀ b, (change b a).Stops) : (items.foldlM change b).Stops :=
  foldlM_closed (P := fun _ => Stops) stops_pure Stops.bind b h

end PoolChange

/-! ## Code -/

theorem LiveFrame.stops_storeType (offsets : Array Nat) (t : LiveType) :
    (storeType offsets t).Stops := by
  cases t with
  | object type => exact (stops_internClass _).bind fun _ => stops_pure _
  | _ => exact stops_pure _

theorem LiveFrame.stops_stored (offsets : Array Nat) (frame : LiveFrame) :
    (frame.stored offsets).Stops :=
  (stops_mapM fun t _ => stops_storeType offsets t).bind fun _ =>
    (stops_mapM fun t _ => stops_storeType offsets t).bind fun _ => stops_pure _

theorem FrameTable.stops_ofFrames (offsets : Array Nat) (entry : LiveFrame)
    (frames : List (Label × LiveFrame)) : (ofFrames offsets entry frames).Stops :=
  (LiveFrame.stops_stored offsets entry).bind fun _ =>
    (stops_foldlM fun frame _ _ => (LiveFrame.stops_stored offsets frame.2).bind fun _ =>
      stops_pure _).bind fun _ => stops_pure _

namespace Code

variable {code repointed : Code} {texts : List LoadedText} {version : Version}
  {method : MethodHead} {hierarchy : Hierarchy} {pool : ConstantPool}

theorem stops_repoint (code : Code) (t : LoadedText) : (code.repoint t).Stops :=
  (stops_internText _).bind fun _ => (stops_intern _).bind fun _ => stops_pure _

/-- The blocks of the code are followed for ever. -/
def IsEndless (code : Code) (method : MethodHead) (hierarchy : Hierarchy) (pool : ConstantPool) :
    Prop :=
  ∃ entry flow, Analysis.entryOf code method = .ok entry ∧
    Analysis.flowOf code method pool hierarchy entry = .ok flow ∧
    flow.loop? (flow.start entry) = none

theorem runsOn_deriveTable_iff :
    (code.deriveTable method hierarchy).RunsOn pool ↔ code.IsEndless method hierarchy pool := by
  unfold deriveTable
  rw [runsOn_get_bind]
  constructor
  · intro h
    rcases runsOn_bind_iff.mp h with ⟨e, he, name, offset, rfl⟩ | ⟨analysis, grown, -, h⟩
    · rcases hanalysis : Analysis.ofCode code method pool hierarchy with ⟨label, fault⟩ | analysis
      · rw [hanalysis] at he
        cases he
        exact (Analysis.ofCode_eq_unsettled_iff.mp hanalysis).2
      · rw [hanalysis] at he
        cases he
    · refine absurd h ((stops_assembly _).bind (fun _ => ?_) grown)
      exact (FrameTable.stops_ofFrames _ _ _).bind fun _ => stops_pure _
  · intro h
    have hanalysis := Analysis.ofCode_eq_unsettled_iff.mpr ⟨rfl, h⟩
    refine runsOn_bind_iff.mpr (.inl ⟨.frames (method.name ++ method.descriptor) none .unsettled,
      ?_, _, _, rfl⟩)
    rw [hanalysis]
    rfl

theorem runsOn_settleMoved_iff {needsFrames : Bool} :
    (code.settleMoved needsFrames method hierarchy).RunsOn pool ↔
      needsFrames = true ∧ code.IsEndless method hierarchy pool := by
  have hrest (after : Code) : (do return after.dropStale (← get) : PoolChange Code).Stops :=
    stops_get.bind fun _ => stops_pure _
  cases needsFrames with
  | false => exact iff_of_false ((stops_pure code).bind hrest pool) fun h => nomatch h.1
  | true =>
    have hsettle : code.settleMoved true method hierarchy =
        ((CodeChange.deriveFrames method hierarchy).code code >>= fun after => do
          return after.dropStale (← get)) := rfl
    rw [hsettle, runsOn_bind_stops hrest, code_deriveFrames, runsOn_bind_stops fun _ =>
      (stops_internText _).bind fun _ => stops_pure _, runsOn_deriveTable_iff]
    exact (and_iff_right rfl).symm

/-- The code has moved: its labels have other offsets. -/
def HasMoved (code repointed : Code) : Prop :=
  ∃ new old, Assembled.layout repointed.instructions = .ok new ∧
    Assembled.layout code.instructions = .ok old ∧ new ≠ old

/-- The code with the new texts needs new frames, and its blocks are followed for ever. -/
def RunsOn (code : Code) (texts : List LoadedText) (version : Version) (method : MethodHead)
    (hierarchy : Hierarchy) (pool : ConstantPool) : Prop :=
  version.needsFrames code pool = true ∧ ∃ repointed grown,
    (texts.filter (·.isChanged)).foldlM repoint code pool = (.ok repointed, grown) ∧
      code.HasMoved repointed ∧ repointed.IsEndless method hierarchy grown

/-- There is no other reason why work on code should not end. -/
theorem runsOn_withTexts?_iff :
    (code.withTexts? texts version method hierarchy).RunsOn pool ↔
      code.RunsOn texts version method hierarchy pool := by
  have hassembled (settled : Code) : (do
      let _ ← PoolChange.ofExcept (settled.assemble.mapError .assembly)
      return some settled : PoolChange (Option Code)).Stops :=
    (stops_assembly _).bind fun _ => stops_pure _
  unfold withTexts?
  rw [runsOn_get_bind]
  dsimp only
  split
  · next hnone =>
    refine iff_of_false (stops_pure _ _) ?_
    rintro ⟨-, repointed, grown, hrepoint, ⟨new, old, hnew, hold, hne⟩, -⟩
    rw [List.isEmpty_iff.mp hnone] at hrepoint
    obtain rfl := Except.ok.inj (Prod.mk.inj hrepoint).1
    exact hne (Except.ok.inj (hnew.symm.trans hold))
  · rw [(stops_foldlM fun t _ c => stops_repoint c t).runsOn_bind_iff]
    simp only [runsOn_layout_bind_iff]
    constructor
    · rintro ⟨repointed, grown, hrepoint, new, hnew, old, hold, h⟩
      split at h
      · next hmoved =>
        rw [runsOn_bind_stops hassembled, runsOn_settleMoved_iff] at h
        exact ⟨h.1, repointed, grown, hrepoint, ⟨new, old, hnew, hold, bne_iff_ne.mp hmoved⟩, h.2⟩
      · exact absurd h ((stops_pure repointed).bind hassembled grown)
    · rintro ⟨hneeds, repointed, grown, hrepoint, ⟨new, old, hnew, hold, hne⟩, hendless⟩
      refine ⟨repointed, grown, hrepoint, new, hnew, old, hold, ?_⟩
      rw [if_pos (bne_iff_ne.mpr hne), runsOn_bind_stops hassembled, runsOn_settleMoved_iff]
      exact ⟨hneeds, hendless⟩

end Code

/-! ## Methods and classes -/

/-- It is told of a method that its blocks are followed for ever. -/
def Event.IsEndless (event : Event) : Prop :=
  ∃ place e, event = .methodFailed place e ∧ e.IsEndless

def TellsEndless (events : List Event) : Prop :=
  ∃ event ∈ events, event.IsEndless

theorem tellsEndless_append {events others : List Event} :
    TellsEndless (events ++ others) ↔ TellsEndless events ∨ TellsEndless others := by
  simp only [TellsEndless, List.mem_append, or_and_right, exists_or]

theorem tellsEndless_methodFailed {place : MethodPlace} {e : ClassError} :
    TellsEndless [.methodFailed place e] ↔ e.IsEndless := by
  constructor
  · rintro ⟨event, hevent, _, _, rfl, h⟩
    cases List.mem_singleton.mp hevent
    exact h
  · exact fun h => ⟨_, List.mem_singleton_self _, place, e, rfl, h⟩

theorem not_tellsEndless_substituted (place : MethodPlace) (replacements : List Replacement) :
    ¬TellsEndless (replacements.map (.substituted place)) := by
  rintro ⟨event, hevent, _, _, rfl, -⟩
  obtain ⟨_, _, heq⟩ := List.mem_map.mp hevent
  cases heq

namespace ClassContext

variable {ctx : ClassContext} {method : Method} {p : ClassProgress}

/-- The work on the method does not end. -/
def RunsOn (ctx : ClassContext) (method : Method) (p : ClassProgress) : Prop :=
  ∃ name descriptor code, method.nameText p.pool = .ok name ∧
    method.descriptorText p.pool = .ok descriptor ∧ method.code? = some code ∧
    code.RunsOn (code.loadedTexts ctx.rules p.pool p.draws).1 ctx.version
      ⟨ctx.className, name, descriptor, method.isStatic⟩ ctx.hierarchy p.pool

/-- The work on the methods ends: on each of them in turn, with what the one before has left. -/
def Ends (ctx : ClassContext) : List Method → ClassProgress → Prop
  | [], _ => True
  | method :: rest, p => ¬ctx.RunsOn method p ∧
      ∀ new next, ctx.rewriteMethod method p = (.ok new, next) → ctx.Ends rest next

theorem tellsEndless_rewriteCode {place : MethodPlace} {code : Code} :
    TellsEndless (ctx.rewriteCode method place code p).2.events ↔
      TellsEndless p.events ∨ code.RunsOn (code.loadedTexts ctx.rules p.pool p.draws).1 ctx.version
        ⟨ctx.className, place.method, place.descriptor, method.isStatic⟩ ctx.hierarchy p.pool := by
  rw [← Code.runsOn_withTexts?_iff]
  simp only [rewriteCode, run_bind, run_get, run_drawing]
  split
  · next hnil =>
    have hnone : ¬(code.withTexts? (code.loadedTexts ctx.rules p.pool p.draws).1 ctx.version
        ⟨ctx.className, place.method, place.descriptor, method.isStatic⟩ ctx.hierarchy).RunsOn
        p.pool := by
      rw [List.isEmpty_iff.mp hnil]
      rintro ⟨e, heq, -⟩
      cases heq
    exact (or_iff_left hnone).symm
  · simp only [run_bind, run_changing, PoolChange.RunsOn]
    rcases code.withTexts? (code.loadedTexts ctx.rules p.pool p.draws).1 ctx.version
      ⟨ctx.className, place.method, place.descriptor, method.isStatic⟩ ctx.hierarchy p.pool
      with ⟨e | ⟨_ | new⟩, grown⟩
    · refine tellsEndless_append.trans (or_congr Iff.rfl (tellsEndless_methodFailed.trans ?_))
      constructor
      · exact fun h => ⟨e, rfl, h⟩
      · rintro ⟨_, heq, h⟩
        exact Except.error.inj heq ▸ h
    all_goals
      refine tellsEndless_append.trans (or_congr Iff.rfl ?_)
      refine iff_of_false (not_tellsEndless_substituted place _) ?_
      rintro ⟨_, heq, -⟩
      cases heq

theorem tellsEndless_rewriteMethod :
    TellsEndless (ctx.rewriteMethod method p).2.events ↔
      TellsEndless p.events ∨ ctx.RunsOn method p := by
  simp only [rewriteMethod, run_bind, run_get, ClassStep.ofExcept]
  unfold RunsOn
  cases hname : method.nameText p.pool with
  | error e => exact (or_iff_left fun ⟨_, _, _, heq, _⟩ => nomatch heq).symm
  | ok name =>
    cases hdescriptor : method.descriptorText p.pool with
    | error e => exact (or_iff_left fun ⟨_, _, _, _, heq, _⟩ => nomatch heq).symm
    | ok descriptor =>
      cases hcode : method.code? with
      | none => exact (or_iff_left fun ⟨_, _, _, _, _, heq, _⟩ => nomatch heq).symm
      | some code =>
        refine tellsEndless_rewriteCode.trans (or_congr Iff.rfl ?_)
        constructor
        · exact fun h => ⟨name, descriptor, code, rfl, rfl, rfl, h⟩
        · rintro ⟨_, _, _, heq, heq', heq'', h⟩
          cases heq
          cases heq'
          cases heq''
          exact h

theorem tellsEndless_mapM :
    ∀ {methods : List Method} {p : ClassProgress},
      TellsEndless ((methods.mapM ctx.rewriteMethod : ClassStep (List Method)) p).2.events ↔
        TellsEndless p.events ∨ ¬ctx.Ends methods p
  | [], p => by
    rw [Ends, not_true, or_false]
    rfl
  | method :: rest, p => by
    rw [List.mapM_cons, run_bind, Ends, not_and_or, not_not, ← or_assoc,
      ← tellsEndless_rewriteMethod]
    rcases ctx.rewriteMethod method p with ⟨e | new, next⟩
    · exact (or_iff_left fun h => h fun _ _ heq => nomatch (Prod.mk.inj heq).1).symm
    · have hends : (∀ new' next',
          ((.ok new, next) : Except ClassError Method × ClassProgress) = (.ok new', next') →
            ctx.Ends rest next') ↔ ctx.Ends rest next :=
        ⟨fun h => h new next rfl, fun h _ _ heq => (Prod.mk.inj heq).2 ▸ h⟩
      dsimp only
      rw [run_bind, hends, ← tellsEndless_mapM]
      cases ((rest.mapM ctx.rewriteMethod : ClassStep (List Method)) next).1 <;> rfl

end ClassContext

namespace ClassFile

variable {c : ClassFile} {rules : Rules} {hierarchy : Hierarchy} {draws : Draws}

/-- The work on the class ends. -/
def Ends (c : ClassFile) (rules : Rules) (hierarchy : Hierarchy) (draws : Draws) : Prop :=
  ∀ name, c.rewritableName = .ok name →
    ClassContext.Ends ⟨name, c.version, rules, hierarchy⟩ c.methods ⟨c.pool, draws, [], {}⟩

/-- The work on a class ends exactly if it is told of no method that it does not. -/
theorem ends_iff : c.Ends rules hierarchy draws ↔
    ¬TellsEndless (c.rewrite rules hierarchy draws).events := by
  unfold Ends rewrite
  cases c.rewritableName with
  | error e => exact iff_of_true nofun fun ⟨_, hmem, _⟩ => nomatch hmem
  | ok name =>
    have hends := @ClassContext.tellsEndless_mapM ⟨name, c.version, rules, hierarchy⟩ c.methods
      ⟨c.pool, draws, [], {}⟩
    refine Iff.trans ?_ (not_congr hends).symm
    rw [not_or, not_not]
    constructor
    · exact fun h => ⟨fun ⟨_, hmem, _⟩ => List.not_mem_nil hmem, h name rfl⟩
    · rintro ⟨-, h⟩ _ heq
      exact Except.ok.inj heq ▸ h

end ClassFile

end ClassText
