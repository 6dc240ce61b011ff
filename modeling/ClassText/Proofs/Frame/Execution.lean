import ClassText.Proofs.Frame.Effect

/-!
# Following instructions keeps properties of types

A property of types that all have which an instruction brings in is kept by
following it (`execute_holds`). So what an instruction makes of a frame of the
method is a frame of the method (`execute_fits`).
-/

namespace ClassText

theorem ConstantPool.Gives.good_of_supplies {good : LiveType → Prop} {pool : ConstantPool}
    {index : PoolIndex} (h : pool.Gives good index) {t : LiveType} (ht : pool.Supplies index t) :
    good t := by
  cases ht with
  | ofClass htype => exact (h.ofClass htype).1
  | arrayOf htype => exact (h.ofClass htype).2
  | ofField htype => exact h.ofField htype
  | ofMethod htype hresult => exact h.ofMethod htype hresult
  | ofCallSite htype hresult => exact h.ofCallSite htype hresult
  | ofValue htype => exact h.ofValue htype

namespace MethodContext

variable {good : LiveType → Prop} {slots : Nat} {ctx : MethodContext} {frame frame' : LiveFrame}
  {label : Label} {insn : Instruction} {locals : List LiveType}

/-! ## Types on the stack -/

theorem Gives.initializedClass (hctx : ctx.Gives good) {t : LiveType} {type : RefType}
    (h : ctx.initializedClass t = .ok type) : good (.object type) := by
  unfold MethodContext.initializedClass at h
  split at h
  · cases h
    exact hctx.thisClass
  · unfold MethodContext.newClass at h
    split at h
    · next hnew => exact hctx.made hnew h
    · cases h
  · cases h

theorem Gives.good_of_yields (hctx : ctx.Gives good) (hframe : frame.Holds good slots)
    (hinsn : insn.Gives ctx.pool good label) {t : LiveType}
    (ht : ctx.Yields frame label insn t) : good t := by
  cases ht with
  | kept hmem => exact hframe.stack t hmem
  | loaded hmem => exact hframe.locals t hmem
  | plain hplain => exact hctx.closed.plain hplain
  | baseArray type => exact hctx.closed.baseArray type
  | component hmem hcomponent => exact hctx.closed.component (hframe.stack _ hmem) hcomponent
  | constructed _ htype => exact hctx.initializedClass htype
  | fresh hnew htype => exact hinsn.fresh hnew htype
  | constant hindex hsupplied => exact (hinsn.constant _ hindex).good_of_supplies hsupplied

/-! ## Variables -/

theorem Writes.length_eq (h : ctx.Writes frame locals) :
    locals.length = frame.locals.length := by
  cases h with
  | unchanged => rfl
  | stored => exact LiveFrame.length_setSlot ..
  | constructed => exact List.length_map _

/-- Where a constructor was called, a second slot is still one: it is not what was initialized. -/
theorem Writes.isSpread (h : ctx.Writes frame locals)
    (hspread : VerificationType.IsSpread frame.locals) : VerificationType.IsSpread locals := by
  cases h with
  | unchanged => exact hspread
  | stored _ hroom => exact LiveFrame.isSpread_setSlot hspread hroom
  | @constructed old type _ htype =>
    have hold : old ≠ .top := by
      rintro rfl
      cases htype
    intro i t ht hwide
    obtain ⟨u, hu, rfl⟩ := Option.map_eq_some_iff.mp (List.getElem?_map.symm.trans ht)
    split at hwide
    · cases hwide
    · refine List.getElem?_map.trans ?_
      rw [hspread i u hu hwide, Option.map_some, if_neg hold.symm]

theorem Writes.holds (h : ctx.Writes frame locals) (hctx : ctx.Gives good)
    (hframe : frame.Holds good slots) : ∀ t ∈ locals, good t := by
  cases h with
  | unchanged => exact hframe.locals
  | @stored t index hmem =>
    intro u hu
    rcases LiveFrame.mem_setSlot hu with hu | rfl | rfl
    · exact hframe.locals u hu
    · exact hframe.stack u hmem
    · exact hctx.closed.plain rfl
  | constructed _ htype =>
    intro u hu
    obtain ⟨v, hv, rfl⟩ := List.mem_map.mp hu
    split
    · exact hctx.initializedClass htype
    · exact hframe.locals v hv

/-! ## Instructions -/

/-- An instruction keeps what the types of a frame have in common with those it brings in. -/
theorem execute_holds (hctx : ctx.Gives good) (hframe : frame.Holds good slots)
    (hinsn : insn.Gives ctx.pool good label) (h : ctx.execute frame label insn = .ok frame') :
    frame'.Holds good slots where
  slots := (execute_effect h).locals.length_eq.trans hframe.slots
  spread := (execute_effect h).locals.isSpread hframe.spread
  locals := (execute_effect h).locals.holds hctx hframe
  stack := fun t ht => hctx.good_of_yields hframe hinsn ((execute_effect h).stack t ht)

/-- What an instruction makes of a frame of the method is a frame of the method. -/
theorem execute_fits {scope : String → Prop} (hctx : ctx.Fits scope)
    (hframe : frame.Fits scope slots) (hinsn : insn.Fits scope ctx.pool)
    (h : ctx.execute frame label insn = .ok frame') : frame'.Fits scope slots :=
  execute_holds hctx.gives hframe (hinsn.gives label) h

end MethodContext

end ClassText
