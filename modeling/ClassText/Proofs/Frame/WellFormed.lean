import ClassText.Proofs.Frame.Naming

/-!
# Frames that are well formed

A frame of a method has as many slots as the frame with which the method begins,
its values of width two have both their slots, nothing unusable is on its stack,
and every object that is still uninitialized comes from a `new` of this method
whose class is known (`LiveFrame.IsWellFormed`). Nothing that the analysis does
takes this away, so the frames it finds are well formed. Such a frame can be
stored, and a constructor that is called in it finds the class of its object.

But for the stack, this is about the types of a frame one by one, and thus a case
of what instructions and merges keep (`LiveFrame.Holds`).
-/

namespace ClassText

open OperandStack

/-- The instruction at this label makes an object, of a class that can be read. -/
def MethodContext.MakesAt (ctx : MethodContext) (site : Label) : Prop :=
  ∃ index type, ctx.instructions[site]? = some (.constantRef .new index) ∧
    ctx.pool.referredClass index = .ok type

/-- An object that is still uninitialized was made where the type says. -/
def LiveType.IsMade (ctx : MethodContext) (t : LiveType) : Prop :=
  ∀ site, t = .uninitialized site → ctx.MakesAt site

structure LiveFrame.IsWellFormed (ctx : MethodContext) (slots : Nat) (frame : LiveFrame) :
    Prop where
  slots : frame.locals.length = slots
  spread : VerificationType.IsSpread frame.locals
  usable : .top ∉ frame.stack
  made : ∀ site, .uninitialized site ∈ frame.locals ++ frame.stack → ctx.MakesAt site

variable {ctx : MethodContext} {slots : Nat} {frame : LiveFrame}

theorem LiveFrame.isWellFormed_iff : frame.IsWellFormed ctx slots ↔
    frame.Holds (LiveType.IsMade ctx) slots ∧ .top ∉ frame.stack := by
  constructor
  · intro h
    refine ⟨⟨h.slots, h.spread, ?_, ?_⟩, h.usable⟩
    · rintro t ht site rfl
      exact h.made site (List.mem_append_left _ ht)
    · rintro t ht site rfl
      exact h.made site (List.mem_append_right _ ht)
  · rintro ⟨h, husable⟩
    refine ⟨h.slots, h.spread, husable, fun site hsite => ?_⟩
    exact (List.mem_append.mp hsite).elim (h.locals _ · site rfl) (h.stack _ · site rfl)

/-! ## Types that constants bring in -/

/-- The type of a value that is finished and can be used. -/
def LiveType.IsFinished (t : LiveType) : Prop :=
  t ≠ .top ∧ ∀ site, t ≠ .uninitialized site

theorem LiveType.isFinished_ofField (type : FieldType) : IsFinished (ofField type) := by
  rcases type with base | type
  · cases base <;> exact ⟨nofun, nofun⟩
  · exact ⟨nofun, nofun⟩

theorem LiveType.IsFinished.isMade {t : LiveType} (h : t.IsFinished) : t.IsMade ctx :=
  fun site heq => absurd heq (h.2 site)

theorem ConstantPool.isFinished_loadedType {pool : ConstantPool} {index : PoolIndex}
    {t : LiveType} (h : pool.loadedType index = .ok t) : t.IsFinished := by
  refine ⟨?_, fun site heq => ?_⟩
  · rintro rfl
    unfold loadedType at h
    split at h <;> try cases h
    obtain ⟨member, -, h⟩ := Success.bind_eq_ok.mp h
    obtain ⟨type, -, h⟩ := Success.bind_eq_ok.mp h
    exact (LiveType.isFinished_ofField type).1 (Except.ok.inj h)
  · -- What can be stored in a method without instructions was made by none of them.
    have hstorable : t.IsStorable 0 := isStorable_loadedType h
    exact absurd (hstorable.site site heq) (Nat.not_lt_zero site)

theorem ConstantPool.Supplies.isFinished {pool : ConstantPool} {index : PoolIndex} {t : LiveType}
    (h : pool.Supplies index t) : t.IsFinished := by
  cases h with
  | ofClass | arrayOf => exact ⟨nofun, nofun⟩
  | ofField | ofMethod | ofCallSite => exact LiveType.isFinished_ofField _
  | ofValue h => exact isFinished_loadedType h

theorem ConstantPool.gives_isMade (pool : ConstantPool) (index : PoolIndex) :
    pool.Gives (LiveType.IsMade ctx) index where
  ofClass := fun htype => ⟨(Supplies.ofClass htype).isFinished.isMade,
    (Supplies.arrayOf htype).isFinished.isMade⟩
  ofField := fun htype => (Supplies.ofField htype).isFinished.isMade
  ofMethod := fun htype hresult => (Supplies.ofMethod htype hresult).isFinished.isMade
  ofCallSite := fun htype hresult => (Supplies.ofCallSite htype hresult).isFinished.isMade
  ofValue := fun htype => (Supplies.ofValue htype).isFinished.isMade

/-! ## Instructions -/

theorem LiveType.isClosed_isMade (ctx : MethodContext) : IsClosed (IsMade ctx) where
  plain := by
    rintro t ht site rfl
    cases ht
  baseArray := fun _ => nofun
  component := fun _ _ => (isFinished_ofField _).isMade

theorem MethodContext.gives_isMade (ctx : MethodContext) : ctx.Gives (LiveType.IsMade ctx) where
  closed := LiveType.isClosed_isMade ctx
  thisClass := nofun
  made := fun _ _ => nofun

namespace LiveFrame

variable {after : LiveFrame} {label : Label} {insn : Instruction}

/-- Unusable values come only from the variables, and no instruction loads one. -/
theorem ne_top_of_yields (h : .top ∉ frame.stack) {t : LiveType}
    (ht : ctx.Yields frame label insn t) : t ≠ .top := by
  cases ht with
  | kept hmem => exact ne_of_mem_of_not_mem hmem h
  | loaded _ husable => exact husable
  | plain _ husable => exact husable
  | component => exact (LiveType.isFinished_ofField _).1
  | constant _ hsupplied => exact hsupplied.isFinished.1
  | baseArray | constructed | fresh => nofun

theorem IsWellFormed.execute (h : frame.IsWellFormed ctx slots)
    (hinsn : ∀ index, insn = .constantRef .new index → ctx.instructions[label]? = some insn)
    (hexecute : ctx.execute frame label insn = .ok after) : after.IsWellFormed ctx slots := by
  obtain ⟨hholds, husable⟩ := isWellFormed_iff.mp h
  have hgives : insn.Gives ctx.pool (LiveType.IsMade ctx) label := by
    refine ⟨fun index _ => ctx.pool.gives_isMade index, ?_⟩
    rintro index type hnew htype site ⟨⟩
    exact ⟨index, type, hnew ▸ hinsn index hnew, htype⟩
  refine isWellFormed_iff.mpr ⟨MethodContext.execute_holds ctx.gives_isMade hholds hgives hexecute,
    fun hmem => ?_⟩
  exact ne_top_of_yields husable ((MethodContext.execute_effect hexecute).stack _ hmem) rfl

/-! ## Entry, handlers and merges -/

theorem isWellFormed_entry (ctx : MethodContext) (name : String) (isStatic : Bool)
    (type : MethodType) (maxLocals : Nat) :
    (entry ctx.thisClass name isStatic type maxLocals).IsWellFormed ctx
      (entry ctx.thisClass name isStatic type maxLocals).locals.length :=
  isWellFormed_iff.mpr ⟨holds_entry (LiveType.isClosed_isMade ctx) nofun
    (fun _ _ => (LiveType.isFinished_ofField _).isMade) maxLocals, nofun⟩

theorem IsWellFormed.caught (h : frame.IsWellFormed ctx slots) (exception : RefType) :
    (frame.caught exception).IsWellFormed ctx slots :=
  isWellFormed_iff.mpr ⟨(isWellFormed_iff.mp h).1.caught nofun,
    fun hmem => nomatch List.mem_singleton.mp hmem⟩

/-- An uninitialized object is only merged with itself. -/
theorem IsWellFormed.merge {a : Ancestry} {incoming merged : LiveFrame}
    {recorded : Option LiveFrame} (h : frame.IsWellFormed ctx slots)
    (hincoming : incoming.IsWellFormed ctx slots)
    (hmerge : a.mergeFrames frame incoming recorded = .ok merged) :
    merged.IsWellFormed ctx slots := by
  obtain ⟨-, -, husable⟩ := Ancestry.mergeFrames_eq_ok hmerge
  refine isWellFormed_iff.mpr ⟨Ancestry.mergeFrames_holds (fun _ => True) ?_
    (isWellFormed_iff.mp h).1 (isWellFormed_iff.mp hincoming).1 (fun _ _ => trivial) hmerge,
    husable⟩
  intro t u recorded ht _ _ site heq
  exact ht site (Ancestry.eq_of_merge_uninitialized heq)

/-! ## What frames that are well formed are good for -/

/-- The layout of the code has an offset for every object in the frame. -/
theorem IsWellFormed.storeType {offsets : Array Nat} {site : Label}
    (h : frame.IsWellFormed ctx slots) (hlayout : Assembled.layout ctx.instructions = .ok offsets)
    (hsite : .uninitialized site ∈ frame.locals ++ frame.stack) :
    ∃ offset, offsets[site]? = some offset ∧
      storeType offsets (.uninitialized site) = pure (.uninitialized (.ofNat offset)) := by
  obtain ⟨index, type, hnew, -⟩ := h.made site hsite
  obtain ⟨-, rfl⟩ := Assembled.layout_eq_ok_iff.mp hlayout
  have hlt : site < (Assembled.offsetsOf ctx.instructions).size := by
    rw [Assembled.size_offsetsOf]
    exact Nat.lt_succ_of_lt (Array.getElem?_eq_some_iff.mp hnew).1
  refine ⟨(Assembled.offsetsOf ctx.instructions).getD site 0, ?_, rfl⟩
  rw [Array.getElem?_eq_getElem hlt, Array.getElem_eq_getD]

/-- A constructor that is called for an uninitialized object finds the class of the object. -/
theorem IsWellFormed.construct {index : PoolIndex} {type : MethodType} {rest : OperandStack}
    {site label : Label} (h : frame.IsWellFormed ctx slots)
    (htype : ctx.pool.referredMethod index = .ok (constructorName, type))
    (hpop : MethodContext.popArguments type.parameters frame.stack =
      .ok (.uninitialized site :: rest)) :
    ∃ made, ctx.newClass site = .ok made ∧
      let popped := replace { frame with stack := rest } (.uninitialized site) (.object made)
      ctx.execute frame label (.constantRef .invokeSpecial index) = .ok
        { popped with stack := (type.result.map LiveType.ofField).toList ++ popped.stack } := by
  have hmem := (MethodContext.holds_popArguments (MethodContext.holds_mem frame.stack) hpop).head
  obtain ⟨index, made, hnew, hmade⟩ := h.made site (List.mem_append_right _ hmem)
  have hclass : ctx.newClass site = .ok made := by
    rw [MethodContext.newClass, hnew]
    exact hmade
  have hreceiver : ctx.popReceiver { frame with stack := .uninitialized site :: rest } .fresh =
      .ok (replace { frame with stack := rest } (.uninitialized site) (.object made)) :=
    Success.bind_eq_ok.mpr ⟨_, rfl, Success.bind_eq_ok.mpr ⟨made, hclass, rfl⟩⟩
  refine ⟨made, hclass, Success.bind_eq_ok.mpr ⟨_, htype, ?_⟩⟩
  exact Success.bind_eq_ok.mpr ⟨_, hpop, Success.bind_eq_ok.mpr ⟨_, hreceiver, rfl⟩⟩

end LiveFrame

/-! ## Methods -/

theorem Flow.preserves_isWellFormed (flow : Flow) (slots : Nat) :
    flow.Preserves (LiveFrame.IsWellFormed flow.context slots) where
  execute := by
    intro frame after label h hexecute
    refine h.execute (fun index hnew => ?_) hexecute
    rw [Array.getD_eq_getD_getElem?] at hnew ⊢
    cases hinsn : flow.context.instructions[label]? with
    | none =>
      rw [hinsn] at hnew
      cases hnew
    | some insn => rfl
  caught := fun _ h => h.caught _
  merge := fun h hincoming hmerge => h.merge hincoming hmerge

namespace Analysis

/-- The frame with which a method begins is well formed, and whatever the analysis makes of frames
that are well formed is well formed again. So the frames of all blocks are, no object in such a
frame lies outside the layout of the code, and a constructor finds the class of its object. -/
theorem isWellFormed_kept (code : Code) (method : MethodHead) (pool : ConstantPool)
    (type : MethodType) :
    let ctx : MethodContext := ⟨pool, method.thisClass, code.instructions⟩
    let entry := LiveFrame.entry method.thisClass method.name method.isStatic type
      code.maxLocals.toNat
    let Good := LiveFrame.IsWellFormed ctx entry.locals.length
    Good entry ∧
      (∀ frame exception, Good frame → Good (frame.caught exception)) ∧
      (∀ frame label insn after, Good frame → code.instructions[label]? = some insn →
        ctx.execute frame label insn = .ok after → Good after) ∧
      (∀ (a : Ancestry) frame incoming recorded merged, Good frame → Good incoming →
        a.mergeFrames frame incoming recorded = .ok merged → Good merged) ∧
      (∀ hierarchy a, MethodType.parse method.descriptor = .ok type →
        ofCode code method pool hierarchy = .ok a →
          a.entry = entry ∧ ∀ listed ∈ a.frames, Good listed.2) ∧
      (∀ frame offsets site, Good frame → Assembled.layout code.instructions = .ok offsets →
        .uninitialized site ∈ frame.locals ++ frame.stack →
          ∃ offset, offsets[site]? = some offset ∧
            LiveFrame.storeType offsets (.uninitialized site) =
              pure (.uninitialized (.ofNat offset))) ∧
      (∀ frame label index called site rest, Good frame →
        pool.referredMethod index = .ok (constructorName, called) →
          MethodContext.popArguments called.parameters frame.stack =
            .ok (.uninitialized site :: rest) →
            ∃ made, ctx.newClass site = .ok made ∧
              let popped :=
                LiveFrame.replace { frame with stack := rest } (.uninitialized site) (.object made)
              ctx.execute frame label (.constantRef .invokeSpecial index) = .ok
                { popped with
                  stack := (called.result.map LiveType.ofField).toList ++ popped.stack }) := by
  intro ctx entry Good
  have hentry : Good entry := LiveFrame.isWellFormed_entry ctx ..
  refine ⟨hentry, fun _ exception h => h.caught exception, ?_,
    fun _ _ _ _ _ h hincoming hmerge => h.merge hincoming hmerge, ?_,
    fun _ _ _ h hlayout hsite => h.storeType hlayout hsite,
    fun _ _ _ _ _ _ h htype hpop => h.construct htype hpop⟩
  · intro frame label insn after h hinsn hexecute
    exact h.execute (fun _ _ => hinsn) hexecute
  · intro hierarchy a htype h
    obtain ⟨flow, state, hrun, hflow, hloop, hframes, -⟩ := ofCode_eq_ok h
    obtain ⟨type', htype', heq⟩ := entryOf_eq_ok hrun
    obtain rfl := Except.ok.inj (htype.symm.trans htype')
    have hctx : flow.context = ctx := (flowOf_eq_ok hflow).2.1
    have hstart : Good a.entry := by
      rw [heq]
      exact hentry
    have hall := (hctx ▸ flow.preserves_isWellFormed entry.locals.length).loop
      (Flow.allFrames_start hstart) hloop
    exact ⟨heq, fun listed hlisted => hall _ _ ((blockFrames_spec hframes).2 listed hlisted)⟩

end Analysis

/-! ## A method that makes an object -/

/-- Makes an object, calls its constructor and stores it. -/
def Code.making : Code where
  maxStack := 2
  maxLocals := 1
  instructions := #[.constantRef Opcode.new 2, .simple Opcode.dup,
    .constantRef Opcode.invokeSpecial 6, .slot Opcode.astore 0 .short, .simple Opcode.returnVoid]
  sourceOffsets := #[]
  handlers := [⟨0, 3, 3, none⟩]
  attributes := []

def MethodHead.make : MethodHead := ⟨"A", "make", "()V", true⟩

def ConstantPool.making : ConstantPool :=
  ⟨#[none, some (.utf8 "A"), some (.classRef 1), some (.utf8 constructorName),
    some (.utf8 "()V"), some (.nameAndType 3 4), some (.method 2 5 false)], by decide⟩

theorem Analysis.isWellFormed_kept_making :
    let ctx : MethodContext := ⟨.making, "A", Code.making.instructions⟩
    let made : LiveFrame := ⟨[.top], [.uninitialized 0, .uninitialized 0]⟩
    made.IsWellFormed ctx 1 ∧
      LiveFrame.IsWellFormed ctx 1 ⟨[.top], [.object (.object ClassName.throwable)]⟩ ∧
      (∃ offset, #[0, 3, 4, 7, 8, 9][0]? = some offset ∧
        LiveFrame.storeType #[0, 3, 4, 7, 8, 9] (.uninitialized 0) =
          pure (.uninitialized (.ofNat offset))) ∧
      (∃ type, ctx.newClass 0 = .ok type ∧
        ctx.execute made 2 (.constantRef Opcode.invokeSpecial 6) =
          .ok ⟨[.top], [.object type]⟩) ∧
      ∃ a, ofCode .making .make .making .small = .ok a ∧
        ∀ listed ∈ a.frames, LiveFrame.IsWellFormed ctx 1 listed.2 := by
  intro ctx made
  obtain ⟨hentry, hcaught, hexecute, hmerge, hframes, hstore, hconstruct⟩ :=
    isWellFormed_kept .making .make .making ⟨[], none⟩
  have hnew : ctx.execute ⟨[.top], []⟩ 0 (.constantRef Opcode.new 2) =
      .ok ⟨[.top], [.uninitialized 0]⟩ := by
    decide +kernel
  have hdup : ctx.execute ⟨[.top], [.uninitialized 0]⟩ 1 (.simple Opcode.dup) = .ok made := by
    decide +kernel
  have hmade : made.IsWellFormed ctx 1 :=
    hexecute _ 1 _ _ (hexecute _ 0 _ _ hentry rfl hnew) rfl hdup
  have hsame : Ancestry.mergeFrames ⟨.small, []⟩ made made none = .ok made := by decide +kernel
  have hlayout : Assembled.layout Code.making.instructions = .ok #[0, 3, 4, 7, 8, 9] := by
    decide +kernel
  have hmethod : ConstantPool.making.referredMethod 6 = .ok (constructorName, ⟨[], none⟩) := by
    decide +kernel
  obtain ⟨type, hclass, hcall⟩ :=
    hconstruct made 2 6 ⟨[], none⟩ 0 [.uninitialized 0] hmade hmethod rfl
  refine ⟨hmerge ⟨.small, []⟩ made made none made hmade hmade hsame, hcaught _ _ hentry,
    hstore made _ 0 hmade hlayout (by decide), ⟨type, hclass, hcall⟩, ?_⟩
  have hsome : (ofCode .making .make .making .small).toOption.isSome := by decide +kernel
  obtain ⟨a, ha⟩ := Option.isSome_iff_exists.mp hsome
  have hrun := Success.toOption_eq_some.mp ha
  have hparse : MethodType.parse MethodHead.make.descriptor = .ok ⟨[], none⟩ := by decide +kernel
  exact ⟨a, hrun, (hframes .small a hparse hrun).2⟩

end ClassText
