import ClassText.Frame.Analysis
import ClassText.Proofs.ConstantPool.Growth
import ClassText.Proofs.Frame.Loop
import ClassText.Proofs.Frame.Stored
import ClassText.Proofs.Success

/-!
# The same frames with other strings

Frames know of a string only that it is one. So a method that loads other strings,
from a pool that has more constants, is followed as before: at every instruction
the same frame comes out, if one did before (`Runs.execute`), and so at every block
(`carries_followBlock`), until the frames settle (`carries_loop`).

The pool of before may lack a constant that a method asks for, and the larger one
may have it; then the method fails before and not after. This is why the results
are carried over in one direction only (`Success.Carries`). Recorded frames are
different: a table that cannot be read counts as none, so it is asked for that the
table can be read before (`Code.RecordsFrames`).
-/

namespace ClassText

open Success

/-! ## What instructions refer to -/

namespace ConstantPool

variable {pool grown : ConstantPool}

theorem Grows.carries_text (h : pool.Grows grown) (index : PoolIndex) :
    Carries (pool.referredText index) (grown.referredText index) := by
  unfold referredText
  split
  · next text htext =>
    rw [h.text? htext]
    exact .refl _
  · exact carries_error

theorem Grows.carries_member (h : pool.Grows grown) (index : PoolIndex) :
    Carries (pool.referredMember index) (grown.referredMember index) := by
  unfold referredMember
  split
  · next name descriptor hget =>
    rw [h.get? hget]
    exact (h.carries_text name).bind fun _ _ => (h.carries_text descriptor).bind fun _ _ => .refl _
  · exact carries_error

theorem Grows.carries_class (h : pool.Grows grown) (index : PoolIndex) :
    Carries (pool.referredClass index) (grown.referredClass index) := by
  unfold referredClass
  split
  · next name hget =>
    rw [h.get? hget]
    exact (h.carries_text name).bind fun _ _ => .refl _
  · exact carries_error

theorem Grows.carries_field (h : pool.Grows grown) (index : PoolIndex) :
    Carries (pool.referredField index) (grown.referredField index) := by
  unfold referredField
  split
  · next owner member hget =>
    rw [h.get? hget]
    exact (h.carries_member member).bind fun _ _ => .refl _
  · exact carries_error

theorem Grows.carries_method (h : pool.Grows grown) (index : PoolIndex) :
    Carries (pool.referredMethod index) (grown.referredMethod index) := by
  unfold referredMethod
  split
  · next owner member ofInterface hget =>
    rw [h.get? hget]
    exact (h.carries_member member).bind fun _ _ => .refl _
  · exact carries_error

theorem Grows.carries_callSite (h : pool.Grows grown) (index : PoolIndex) :
    Carries (pool.referredCallSite index) (grown.referredCallSite index) := by
  unfold referredCallSite
  split
  · next bootstrap member hget =>
    rw [h.get? hget]
    exact (h.carries_member member).bind fun _ _ => .refl _
  · exact carries_error

theorem Grows.carries_loaded (h : pool.Grows grown) (index : PoolIndex) :
    Carries (pool.loadedType index) (grown.loadedType index) := by
  unfold loadedType
  cases hget : pool.get? index with
  | none => exact carries_error
  | some c =>
    rw [h.get? hget]
    cases c with
    | dynamic bootstrap member => exact (h.carries_member member).bind fun _ _ => .refl _
    | _ => exact .refl _

theorem loadedType_string {index text : PoolIndex} (h : pool.get? index = some (.string text)) :
    pool.loadedType index = .ok (LiveType.ofClass ClassName.string) := by
  rw [loadedType, h]

end ConstantPool

/-! ## Instructions -/

/-- The same instruction, or both load a string. -/
inductive Instruction.LoadsAlike (pool : ConstantPool) : Instruction → Instruction → Prop
  | same (insn : Instruction) : LoadsAlike pool insn insn
  | strings {index index' text text' : PoolIndex} {wide wide' : Bool}
      (h : pool.get? index = some (.string text)) (h' : pool.get? index' = some (.string text')) :
      LoadsAlike pool (.loadConstant index wide) (.loadConstant index' wide')

namespace Instruction.LoadsAlike

variable {pool : ConstantPool} {insn insn' : Instruction}

theorem targets (h : insn.LoadsAlike pool insn') : insn'.targets = insn.targets := by
  cases h <;> rfl

theorem fallsThrough (h : insn.LoadsAlike pool insn') :
    insn'.fallsThrough = insn.fallsThrough := by
  cases h <;> rfl

theorem isSubroutine (h : insn.LoadsAlike pool insn') :
    insn'.isSubroutine = insn.isSubroutine := by
  cases h <;> rfl

theorem writesSlot (h : insn.LoadsAlike pool insn') :
    Flow.writesSlot insn' = Flow.writesSlot insn := by
  cases h <;> rfl

theorem boundariesOf (h : insn.LoadsAlike pool insn') (label : Label) :
    Code.boundariesOf insn' label = Code.boundariesOf insn label := by
  rw [Code.boundariesOf, Code.boundariesOf, h.targets, h.fallsThrough]

end Instruction.LoadsAlike

/-- The second method has the same instructions as the first one, but for the strings that it
loads, and more constants. -/
structure MethodContext.Runs (ctx other : MethodContext) : Prop where
  grows : ctx.pool.Grows other.pool
  thisClass : other.thisClass = ctx.thisClass
  instructions : List.Forall₂ (Instruction.LoadsAlike other.pool) ctx.instructions.toList
    other.instructions.toList

namespace MethodContext.Runs

variable {ctx other : MethodContext} {insn insn' : Instruction}

theorem size (h : ctx.Runs other) : other.instructions.size = ctx.instructions.size := by
  rw [← Array.length_toList, ← Array.length_toList, h.instructions.length_eq]

theorem instructionAt (h : ctx.Runs other) (label : Label) :
    (ctx.instructions.getD label default).LoadsAlike other.pool
      (other.instructions.getD label default) := by
  have hlength := h.instructions.length_eq
  rw [Array.getD_eq_getD_getElem?, Array.getD_eq_getD_getElem?, ← Array.getElem?_toList,
    ← Array.getElem?_toList]
  rcases Nat.lt_or_ge label ctx.instructions.toList.length with hlt | hge
  · rw [List.getElem?_eq_getElem hlt, List.getElem?_eq_getElem (hlength ▸ hlt)]
    exact h.instructions.get hlt (hlength ▸ hlt)
  · rw [List.getElem?_eq_none hge, List.getElem?_eq_none (hlength ▸ hge)]
    exact .same _

theorem carries_newClass (h : ctx.Runs other) (site : Label) :
    Carries (ctx.newClass site) (other.newClass site) := by
  unfold newClass
  split
  · next index hinsn =>
    have hlt : site < ctx.instructions.size := (Array.getElem?_eq_some_iff.mp hinsn).1
    obtain ⟨insn', hinsn'⟩ : ∃ insn', other.instructions[site]? = some insn' :=
      ⟨_, Array.getElem?_eq_getElem (by rwa [h.size])⟩
    have halike := h.instructionAt site
    rw [Array.getD_eq_getD_getElem?, Array.getD_eq_getD_getElem?, hinsn, hinsn',
      Option.getD_some, Option.getD_some] at halike
    rw [hinsn']
    cases halike
    exact h.grows.carries_class index
  · exact carries_error

theorem carries_popReceiver (h : ctx.Runs other) (frame : LiveFrame) (receiver : Receiver) :
    Carries (ctx.popReceiver frame receiver) (other.popReceiver frame receiver) := by
  cases receiver with
  | none => exact .refl _
  | object => exact .refl _
  | fresh =>
    refine (Carries.refl _).bind fun (t, rest) _ => ?_
    refine Carries.bind ?_ fun _ _ => .refl _
    cases t with
    | uninitializedThis =>
      intro type htype
      rw [initializedClass] at htype ⊢
      rwa [h.thisClass]
    | uninitialized site => exact h.carries_newClass site
    | _ => exact carries_error

theorem carries_invoke (h : ctx.Runs other) (frame : LiveFrame) (type : MethodType)
    (receiver : Receiver) :
    Carries (ctx.invoke frame type receiver) (other.invoke frame type receiver) :=
  (Carries.refl _).bind fun _ _ => (h.carries_popReceiver _ receiver).bind fun _ _ => .refl _

theorem carries_constantRef (h : ctx.Runs other) (frame : LiveFrame) (label : Label)
    (opcode : Opcode) (index : PoolIndex) :
    Carries (ctx.executeConstantRef frame label opcode index)
      (other.executeConstantRef frame label opcode index) := by
  have hclass := h.grows.carries_class index
  have hmethod := h.grows.carries_method index
  unfold executeConstantRef
  split
  · exact (h.grows.carries_field index).bind fun _ _ => .refl _
  · exact .refl _
  · exact (h.grows.carries_field index).bind fun _ _ => .refl _
  · exact .refl _
  · exact hmethod.bind fun _ _ => h.carries_invoke _ _ _
  · exact hmethod.bind fun _ _ => h.carries_invoke _ _ _
  · exact hmethod.bind fun _ _ => h.carries_invoke _ _ _
  · exact hclass.bind fun _ _ => .refl _
  · exact hclass.bind fun _ _ => .refl _
  · exact hclass.bind fun _ _ => .refl _
  · exact hclass.bind fun _ _ => .refl _
  · exact carries_error

theorem carries_load (h : ctx.Runs other) (frame : LiveFrame) (index : PoolIndex)
    (width : Nat) : Carries (ctx.executeLoad frame index width)
      (other.executeLoad frame index width) :=
  (h.grows.carries_loaded index).bind fun _ _ => .refl _

/-- What comes out of an instruction also comes out of one that loads another string. -/
theorem execute (h : ctx.Runs other) (frame : LiveFrame) (label : Label)
    (hinsn : insn.LoadsAlike other.pool insn') :
    Carries (ctx.execute frame label insn) (other.execute frame label insn') := by
  cases hinsn with
  | @strings index index' _ _ wide wide' hindex hindex' =>
    have hload : other.executeLoad frame index 1 = other.executeLoad frame index' 1 := by
      rw [executeLoad, executeLoad, ConstantPool.loadedType_string hindex,
        ConstantPool.loadedType_string hindex']
    show Carries (ctx.executeLoad frame index 1) (other.executeLoad frame index' 1)
    rw [← hload]
    exact h.carries_load frame index 1
  | same =>
    cases insn with
    | loadConstant index wide => exact h.carries_load frame index 1
    | loadWideConstant index => exact h.carries_load frame index 2
    | constantRef opcode index => exact h.carries_constantRef frame label opcode index
    | invokeInterface index count =>
      exact (h.grows.carries_method index).bind fun _ _ => h.carries_invoke _ _ _
    | invokeDynamic index =>
      exact (h.grows.carries_callSite index).bind fun _ _ => h.carries_invoke _ _ _
    | newMultiArray index dimensions =>
      exact (h.grows.carries_class index).bind fun _ _ => .refl _
    | _ => exact .refl _

end MethodContext.Runs

/-! ## Flows -/

namespace Flow

variable {flow : Flow} {other : MethodContext}

/-- The same flow through another method. -/
def through (flow : Flow) (other : MethodContext) : Flow := { flow with context := other }

theorem carries_followOne (h : flow.context.Runs other) (state : FlowState) (frame : LiveFrame)
    (label : Label) : Carries (flow.followOne state frame label)
      ((flow.through other).followOne state frame label) := by
  have hinsn := h.instructionAt label
  refine (Carries.refl _).bind fun state _ => ?_
  refine (h.execute frame label hinsn).bind fun frame _ => ?_
  show Carries _ (do
    let state ← if writesSlot (other.instructions.getD label default) then
      flow.propagateCaught (flow.covering label) (state.measure frame) frame else pure _
    return (state, frame))
  rw [hinsn.writesSlot]
  exact .refl _

theorem successors_through (h : flow.context.Runs other) (block : Block) :
    (flow.through other).successors block = flow.successors block := by
  have hinsn := h.instructionAt block.last
  have hcontext : (flow.through other).context = other := rfl
  simp only [successors, hcontext, hinsn.fallsThrough, hinsn.targets, h.size]

theorem carries_followBlock (h : flow.context.Runs other) (state : FlowState) (block : Block)
    (frame : LiveFrame) : Carries (flow.followBlock state block frame)
      ((flow.through other).followBlock state block frame) := by
  unfold followBlock
  rw [successors_through h]
  refine Carries.bind ?_ fun _ _ => .refl _
  exact carries_foldlM _ _ fun (state, frame) label =>
    (carries_followOne h state frame label).mapError _

theorem carries_step (h : flow.context.Runs other) (state : FlowState) (label : Label)
    (rest : List Label) :
    Carries (flow.step state label rest) ((flow.through other).step state label rest) := by
  have hblock : (flow.through other).blockAt? label = flow.blockAt? label := rfl
  simp only [step, hblock]
  split
  · exact carries_followBlock h _ _ _
  · exact .refl _

/-- Frames that settle, settle in the same way if other strings are loaded. -/
theorem carries_settle (h : flow.context.Runs other) :
    ∀ (visits : Nat) (state : FlowState),
      Carries (flow.settle visits state) ((flow.through other).settle visits state)
  | 0, state => .refl _
  | visits + 1, state => by
    intro settled hsettled
    rw [settle] at hsettled ⊢
    cases hpending : state.pending with
    | nil => rwa [hpending] at hsettled
    | cons label rest =>
      rw [hpending] at hsettled
      dsimp only at hsettled ⊢
      cases hstep : flow.step state label rest with
      | error e =>
        rw [hstep] at hsettled
        cases hsettled
      | ok next =>
        rw [hstep] at hsettled
        rw [carries_step h state label rest next hstep]
        exact carries_settle h visits next settled hsettled

theorem carries_loop (h : flow.context.Runs other) (state : FlowState) :
    Carries (flow.loop state) ((flow.through other).loop state) := by
  intro settled hsettled
  obtain ⟨visits, hvisits⟩ := loop_eq_ok_iff.mp hsettled
  exact loop_eq_ok_iff.mpr ⟨visits, carries_settle h visits state settled hvisits⟩

theorem start_through (h : flow.context.Runs other) (entry : LiveFrame) :
    (flow.through other).start entry = flow.start entry := by
  have hsize : (flow.through other).context.instructions.size =
      flow.context.instructions.size := h.size
  unfold start
  rw [hsize]
  rfl

end Flow

/-! ## Recorded frames -/

namespace FrameTable

variable {pool grown : ConstantPool} {offsets : Array Nat}

theorem readTypes_grows (h : pool.Grows grown) {stored : List StoredType} {types : List LiveType}
    (hread : stored.mapM (StoredType.read? pool offsets) = some types) :
    stored.mapM (StoredType.read? grown offsets) = some types :=
  mapM_eq_some.mpr ((mapM_eq_some.mp hread).imp fun _ _ => StoredType.read?_grows h)

/-- A difference that can be read is read in a larger pool as well. -/
theorem readDelta_grows (h : pool.Grows grown) {delta : FrameDelta PoolIndex UInt16}
    {read : FrameDelta RefType Label}
    (hread : delta.mapM (classAt? pool) (fun site => Decoded.startAt? offsets site.toNat) =
      some read) :
    delta.mapM (classAt? grown) (fun site => Decoded.startAt? offsets site.toNat) =
      some read := by
  cases delta with
  | same offset => exact hread
  | chop offset count => exact hread
  | sameOne offset value =>
    obtain ⟨type, htype, heq⟩ := Option.bind_eq_some_iff.mp hread
    exact Option.bind_eq_some_iff.mpr ⟨type, StoredType.read?_grows h htype, heq⟩
  | append offset locals =>
    obtain ⟨types, htypes, heq⟩ := Option.bind_eq_some_iff.mp hread
    exact Option.bind_eq_some_iff.mpr ⟨types, readTypes_grows h htypes, heq⟩
  | full offset frame =>
    obtain ⟨locals, hlocals, hrest⟩ := Option.bind_eq_some_iff.mp hread
    obtain ⟨stack, hstack, heq⟩ := Option.bind_eq_some_iff.mp hrest
    exact Option.bind_eq_some_iff.mpr ⟨locals, readTypes_grows h hlocals,
      Option.bind_eq_some_iff.mpr ⟨stack, readTypes_grows h hstack, heq⟩⟩

theorem add?_grows (h : pool.Grows grown) {reading next : Reading}
    {delta : FrameDelta PoolIndex UInt16}
    (hadd : reading.add? pool offsets delta = some next) :
    reading.add? grown offsets delta = some next := by
  obtain ⟨read, hread, hrest⟩ := Option.bind_eq_some_iff.mp hadd
  exact Option.bind_eq_some_iff.mpr ⟨read, readDelta_grows h hread, hrest⟩

theorem addAll?_grows (h : pool.Grows grown) :
    ∀ {table : FrameTable} {reading last : Reading},
      table.foldlM (Reading.add? pool offsets) reading = some last →
        table.foldlM (Reading.add? grown offsets) reading = some last
  | [], _, _, hall => hall
  | delta :: table, reading, last, hall => by
    rw [List.foldlM_cons] at hall ⊢
    obtain ⟨next, hnext, hrest⟩ := Option.bind_eq_some_iff.mp hall
    exact Option.bind_eq_some_iff.mpr ⟨next, add?_grows h hnext, addAll?_grows h hrest⟩

theorem frames?_grows (h : pool.Grows grown) {entry : LiveFrame} {table : FrameTable}
    {frames : List (Label × LiveFrame)} (hframes : frames? pool offsets entry table = some frames) :
    frames? grown offsets entry table = some frames := by
  obtain ⟨last, hlast, heq⟩ := Option.bind_eq_some_iff.mp hframes
  exact Option.bind_eq_some_iff.mpr ⟨last, addAll?_grows h hlast, heq⟩

end FrameTable

/-! ## Code -/

namespace Code

variable {code : Code} {pool grown : ConstantPool} {entry : LiveFrame}

/-- The recorded table can be read. -/
def RecordsFrames (code : Code) (pool : ConstantPool) (entry : LiveFrame) : Prop :=
  ((code.frameTable? pool).bind (FrameTable.frames? pool code.sourceOffsets entry)).isSome

/-- The names of all attributes are known. -/
def IsNamed (code : Code) (pool : ConstantPool) : Prop :=
  ∀ a ∈ code.attributes, (pool.text? a.name).isSome

theorem recordsFrames_of_absent (h : code.attribute? pool CodeAttribute.frameTable = none) :
    code.RecordsFrames pool entry := by
  rw [RecordsFrames, frameTable?, h]
  rfl

/-- Attributes whose names are known are told apart by the same names in a larger pool. -/
theorem attribute?_grows (h : pool.Grows grown) (hnamed : code.IsNamed pool) (name : String) :
    code.attribute? grown name = code.attribute? pool name := by
  rw [attribute?, attribute?, ← List.head?_filter, ← List.head?_filter]
  refine congrArg List.head? (List.filter_congr fun a ha => ?_)
  obtain ⟨text, htext⟩ := Option.isSome_iff_exists.mp (hnamed a ha)
  rw [h.text? htext, htext]

theorem recordedFrames_grows (h : pool.Grows grown) (hnamed : code.IsNamed pool)
    (hrecords : code.RecordsFrames pool entry) :
    code.recordedFrames grown entry = code.recordedFrames pool entry := by
  obtain ⟨frames, hframes⟩ := Option.isSome_iff_exists.mp hrecords
  have htable : code.frameTable? grown = code.frameTable? pool := by
    rw [frameTable?, attribute?_grows h hnamed, frameTable?]
  obtain ⟨table, htable', hread⟩ := Option.bind_eq_some_iff.mp hframes
  rw [recordedFrames, recordedFrames, hframes, htable, htable', Option.bind_some,
    FrameTable.frames?_grows h hread]

variable {insns : Array Instruction}

theorem boundaries_alike : ∀ {first second : List Instruction} (label : Label),
    List.Forall₂ (Instruction.LoadsAlike pool) first second →
      (second.zipIdx label).flatMap (fun (insn, l) => boundariesOf insn l) =
        (first.zipIdx label).flatMap fun (insn, l) => boundariesOf insn l
  | _, _, _, .nil => rfl
  | _, _, label, .cons hinsn hrest => by
    rw [List.zipIdx_cons, List.zipIdx_cons, List.flatMap_cons, List.flatMap_cons,
      boundaries_alike (label + 1) hrest]
    exact congrArg (· ++ _) (hinsn.boundariesOf label)

theorem blocks_alike
    (h : List.Forall₂ (Instruction.LoadsAlike pool) code.instructions.toList insns.toList) :
    ({ code with instructions := insns } : Code).blocks = code.blocks := by
  have hsize : insns.size = code.instructions.size := by
    rw [← Array.length_toList, ← Array.length_toList, h.length_eq]
  have hboundaries : ({ code with instructions := insns } : Code).boundaries =
      code.boundaries := by
    unfold boundaries
    rw [boundaries_alike 0 h]
  unfold blocks blockStarts
  rw [hboundaries]
  dsimp only
  rw [hsize]

end Code

namespace Analysis

variable {code : Code} {pool grown : ConstantPool} {insns : Array Instruction}
  {method : MethodHead} {hierarchy : Hierarchy}

theorem carries_catchType (h : pool.Grows grown) (handler : Handler) :
    Carries (catchType pool handler) (catchType grown handler) := by
  unfold catchType
  split
  · exact .refl _
  · next index _ =>
    split
    · next type htype =>
      rw [FrameTable.classAt?_grows h htype]
      exact .refl _
    · exact carries_error

theorem findIdx?_alike : ∀ {first second : List Instruction},
    List.Forall₂ (Instruction.LoadsAlike pool) first second →
      second.findIdx? (·.isSubroutine) = first.findIdx? (·.isSubroutine)
  | _, _, .nil => rfl
  | _, _, .cons hinsn hrest => by
    rw [List.findIdx?_cons, List.findIdx?_cons, hinsn.isSubroutine, findIdx?_alike hrest]

theorem entryOf_alike
    (h : List.Forall₂ (Instruction.LoadsAlike pool) code.instructions.toList insns.toList) :
    entryOf { code with instructions := insns } method = entryOf code method := by
  have hfind : insns.findIdx? (·.isSubroutine) =
      code.instructions.findIdx? (·.isSubroutine) := by
    have hlists := findIdx?_alike h
    rwa [← List.findIdx?_toArray, ← List.findIdx?_toArray, Array.toArray_toList,
      Array.toArray_toList] at hlists
  unfold entryOf
  dsimp only
  rw [hfind]

/-- The flow through the code with other strings is the one through the code before. -/
theorem flowOf_transfer (hgrows : pool.Grows grown)
    (hloads : List.Forall₂ (Instruction.LoadsAlike grown) code.instructions.toList insns.toList)
    (hnamed : code.IsNamed pool) {entry : LiveFrame} (hrecords : code.RecordsFrames pool entry)
    {flow : Flow} (hflow : flowOf code method pool hierarchy entry = .ok flow) :
    flow.context.Runs ⟨grown, method.thisClass, insns⟩ ∧
      flowOf { code with instructions := insns } method grown hierarchy entry =
        .ok (flow.through ⟨grown, method.thisClass, insns⟩) := by
  obtain ⟨types, htypes, heq⟩ := bind_eq_ok.mp hflow
  obtain rfl := Except.ok.inj heq
  refine ⟨⟨hgrows, rfl, hloads⟩, ?_⟩
  have htypes' := carries_mapM code.handlers (carries_catchType hgrows) types htypes
  refine bind_eq_ok.mpr ⟨types, htypes', congrArg Except.ok ?_⟩
  rw [Flow.through, ← Code.recordedFrames_grows hgrows hnamed hrecords,
    ← Code.blocks_alike hloads]
  rfl

/-- The analysis of a method is the same for the code that loads other strings, in a pool with
more constants, if what was recorded could be read before. -/
theorem ofCode_transfer (hgrows : pool.Grows grown)
    (hloads : List.Forall₂ (Instruction.LoadsAlike grown) code.instructions.toList insns.toList)
    (hnamed : code.IsNamed pool) {a : Analysis} (hrecords : code.RecordsFrames pool a.entry)
    (ha : ofCode code method pool hierarchy = .ok a) :
    ofCode { code with instructions := insns } method grown hierarchy = .ok a := by
  obtain ⟨entry, hentry, ha⟩ := bind_eq_ok.mp ha
  obtain ⟨flow, hflow, ha⟩ := bind_eq_ok.mp ha
  obtain ⟨state, hstate, ha⟩ := bind_eq_ok.mp ha
  obtain ⟨frames, hframes, heq⟩ := bind_eq_ok.mp ha
  obtain rfl := Except.ok.inj heq
  obtain ⟨hruns, hflow'⟩ := flowOf_transfer hgrows hloads hnamed hrecords hflow
  refine bind_eq_ok.mpr ⟨entry, (entryOf_alike hloads).trans hentry, ?_⟩
  refine bind_eq_ok.mpr ⟨_, hflow', ?_⟩
  rw [Flow.start_through hruns]
  exact bind_eq_ok.mpr ⟨state, Flow.carries_loop hruns _ state hstate,
    bind_eq_ok.mpr ⟨frames, hframes, rfl⟩⟩

end Analysis

end ClassText
