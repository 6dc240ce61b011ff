import ClassText.Frame.Analysis
import ClassText.Proofs.Frame.Loop
import ClassText.Proofs.Frame.Slots
import ClassText.Proofs.Success

/-!
# Faults of a method as a whole

That code cannot be reached is told of a method as a whole, when its frames have
settled; that they never settle cannot be told at all. No instruction fails with
one of these faults, no merge and no flow of frames. So where unreachable code is
told of, everything before has succeeded (`Analysis.ofCode_unreachable`), and the
fault `unsettled` stands for a loop without end and for nothing else
(`Analysis.ofCode_eq_unsettled_iff`).
-/

namespace ClassText

open Success

/-- The fault may come up while blocks are followed. -/
@[simp]
def FrameFault.IsLocal (fault : FrameFault) : Prop :=
  fault ≠ .unreachable ∧ fault ≠ .unsettled

open FrameFault

/-! ## Instructions -/

namespace OperandStack

variable (stack : OperandStack)

@[simp]
theorem failsWith_pop : FailsWith IsLocal (pop stack) := by
  cases stack <;> simp [pop]

@[simp]
theorem failsWith_popType (type : LiveType) : FailsWith IsLocal (popType type stack) := by
  simp [popType]

@[simp]
theorem failsWith_popTypes (types : List LiveType) : FailsWith IsLocal (popTypes types stack) :=
  .foldlM fun type _ stack => failsWith_popType stack type

@[simp]
theorem failsWith_popReference : FailsWith IsLocal (popReference stack) := by
  simp [popReference]

@[simp]
theorem failsWith_takeSlots (count : Nat) : FailsWith IsLocal (takeSlots count stack) := by
  fun_induction takeSlots count stack <;> simp_all

@[simp]
theorem failsWith_move (form : StackMove) : FailsWith IsLocal (move form stack) := by
  rw [move_eq_shuffle]
  cases form.slots <;> simp [shuffle]

end OperandStack

namespace SimpleAction

@[simp]
theorem failsWith_componentOf (array : LiveType) : FailsWith IsLocal (componentOf array) := by
  unfold componentOf
  split
  · simp
  · split <;> simp
  · simp

@[simp]
theorem failsWith_run (action : SimpleAction) (stack : OperandStack) :
    FailsWith IsLocal (action.run stack) := by
  cases action <;> simp [run]

end SimpleAction

namespace LiveFrame

variable (frame : LiveFrame) (index : Nat)

@[simp]
theorem failsWith_slotType : FailsWith IsLocal (frame.slotType index) := by
  unfold slotType
  split <;> simp

@[simp]
theorem failsWith_load (type : LiveType) : FailsWith IsLocal (frame.load index type) := by
  simp [load]

@[simp]
theorem failsWith_loadReference : FailsWith IsLocal (frame.loadReference index) := by
  simp [loadReference]

@[simp]
theorem failsWith_store (allowed : LiveType → Bool) :
    FailsWith IsLocal (frame.store index allowed) := by
  simp [store]

end LiveFrame

namespace ConstantPool

variable (pool : ConstantPool) (index : PoolIndex)

@[simp]
theorem failsWith_referredText : FailsWith IsLocal (pool.referredText index) := by
  unfold referredText
  split <;> simp

@[simp]
theorem failsWith_referredMember : FailsWith IsLocal (pool.referredMember index) := by
  unfold referredMember
  split <;> simp

@[simp]
theorem failsWith_readDescriptor {α : Type} (parse : String → Except DescriptorFault α)
    (text : String) : FailsWith IsLocal (readDescriptor parse text) := by
  unfold readDescriptor
  split <;> simp

@[simp]
theorem failsWith_referredClass : FailsWith IsLocal (pool.referredClass index) := by
  unfold referredClass
  split <;> simp

@[simp]
theorem failsWith_referredField : FailsWith IsLocal (pool.referredField index) := by
  unfold referredField
  split <;> simp

@[simp]
theorem failsWith_referredMethod : FailsWith IsLocal (pool.referredMethod index) := by
  unfold referredMethod
  split <;> simp

@[simp]
theorem failsWith_referredCallSite : FailsWith IsLocal (pool.referredCallSite index) := by
  unfold referredCallSite
  split <;> simp

@[simp]
theorem failsWith_loadedType : FailsWith IsLocal (pool.loadedType index) := by
  unfold loadedType
  split <;> simp

end ConstantPool

namespace MethodContext

variable (ctx : MethodContext) (frame : LiveFrame)

@[simp]
theorem failsWith_newClass (site : Label) : FailsWith IsLocal (ctx.newClass site) := by
  unfold newClass
  split <;> simp

@[simp]
theorem failsWith_initializedClass (t : LiveType) :
    FailsWith IsLocal (ctx.initializedClass t) := by
  unfold initializedClass
  split <;> simp

@[simp]
theorem failsWith_popArguments (parameters : List FieldType) (stack : OperandStack) :
    FailsWith IsLocal (popArguments parameters stack) :=
  .foldlM fun _ _ _ => by simp

@[simp]
theorem failsWith_popReceiver (receiver : Receiver) :
    FailsWith IsLocal (ctx.popReceiver frame receiver) := by
  cases receiver with
  | none => simp [popReceiver]
  | object =>
    refine failsWith_bind.mpr ⟨OperandStack.failsWith_pop _, fun ⟨t, rest⟩ _ => ?_⟩
    dsimp only
    split <;> simp
  | fresh => simp [popReceiver]

@[simp]
theorem failsWith_invoke (type : MethodType) (receiver : Receiver) :
    FailsWith IsLocal (ctx.invoke frame type receiver) := by
  simp [invoke]

@[simp]
theorem failsWith_executeSlot (opcode : Opcode) (index : Nat) :
    FailsWith IsLocal (executeSlot frame opcode index) := by
  unfold executeSlot
  split <;> simp

@[simp]
theorem failsWith_executeBranch (stack : OperandStack) (opcode : Opcode) :
    FailsWith IsLocal (executeBranch stack opcode) := by
  simp [executeBranch]

@[simp]
theorem failsWith_executeConstantRef (label : Label) (opcode : Opcode) (index : PoolIndex) :
    FailsWith IsLocal (ctx.executeConstantRef frame label opcode index) := by
  unfold executeConstantRef
  split <;> simp

@[simp]
theorem failsWith_executeLoad (index : PoolIndex) (width : Nat) :
    FailsWith IsLocal (ctx.executeLoad frame index width) := by
  simp [executeLoad]

@[simp]
theorem failsWith_execute (label : Label) (insn : Instruction) :
    FailsWith IsLocal (ctx.execute frame label insn) := by
  unfold execute
  split
  · split <;> simp
  all_goals try simp
  split <;> simp

end MethodContext

/-! ## The flow of frames -/

@[simp]
theorem Ancestry.failsWith_mergeFrames (a : Ancestry) (frame incoming : LiveFrame)
    (recorded : Option LiveFrame) :
    FailsWith IsLocal (a.mergeFrames frame incoming recorded) := by
  simp [mergeFrames]

namespace Flow

variable (flow : Flow) (state : FlowState)

@[simp]
theorem failsWith_propagate (target : Label) (frame : LiveFrame) :
    FailsWith IsLocal (flow.propagate state target frame) := by
  unfold propagate
  split
  · simp
  · split <;> simp

@[simp]
theorem failsWith_propagateCaught (handlers : List (Handler × RefType)) (frame : LiveFrame) :
    FailsWith IsLocal (flow.propagateCaught handlers state frame) :=
  .foldlM fun _ _ state => flow.failsWith_propagate state _ _

@[simp]
theorem failsWith_followOne (frame : LiveFrame) (label : Label) :
    FailsWith IsLocal (flow.followOne state frame label) := by
  simp [followOne]

@[simp]
theorem failsWith_successors (block : Block) : FailsWith IsLocal (flow.successors block) := by
  simp [successors]

theorem failsWith_atLabel {α : Type} {label : Label} {result : Except FrameFault α}
    (h : FailsWith IsLocal result) : FailsWith (·.fault.IsLocal) (atLabel label result) :=
  h.mapError fun _ hlocal => hlocal

theorem failsWith_followBlock (block : Block) (frame : LiveFrame) :
    FailsWith (·.fault.IsLocal) (flow.followBlock state block frame) := by
  refine failsWith_bind.mpr ⟨.foldlM fun label _ _ => failsWith_atLabel (by simp), ?_⟩
  rintro ⟨middle, last⟩ -
  refine failsWith_atLabel (failsWith_bind.mpr ⟨flow.failsWith_successors block, fun _ _ => ?_⟩)
  exact .foldlM fun target _ state => flow.failsWith_propagate state target last

theorem failsWith_step (label : Label) (rest : List Label) :
    FailsWith (·.fault.IsLocal) (flow.step state label rest) := by
  unfold step
  dsimp only
  split
  · exact flow.failsWith_followBlock _ _ _
  · exact failsWith_ok

/-- That the loop has no end is the only fault that comes of no block. -/
theorem failsWith_loop :
    FailsWith (fun e => e.fault.IsLocal ∨ e = unsettledFault) (flow.loop state) := by
  intro e h
  by_cases hunsettled : e = unsettledFault
  · exact .inr hunsettled
  rw [loop_eq] at h
  cases hloop : flow.loop? state with
  | none =>
    rw [hloop] at h
    exact (hunsettled (Except.error.inj h).symm).elim
  | some result =>
    rw [hloop, Option.getD_some] at h
    subst h
    refine .inl (loop?.partial_correctness flow
      (fun _ result => FailsWith (·.fault.IsLocal) result) ?_ state _ hloop e rfl)
    intro loop ih state result h
    split at h
    · cases h
      exact failsWith_ok
    · next label rest _ =>
      split at h
      · exact ih _ _ h
      · next e hstep =>
        cases h
        exact failsWith_error.mpr (flow.failsWith_step state label rest e hstep)

end Flow

/-! ## Methods -/

namespace Analysis

variable {code : Code} {method : MethodHead} {pool : ConstantPool} {hierarchy : Hierarchy}

theorem failsWith_entryOf : FailsWith (·.fault.IsLocal) (entryOf code method) := by
  unfold entryOf
  split
  · simp
  · split <;> simp

theorem failsWith_flowOf {entry : LiveFrame} :
    FailsWith (·.fault.IsLocal) (flowOf code method pool hierarchy entry) := by
  refine failsWith_bind.mpr ⟨.mapM fun handler _ => ?_, fun _ _ => failsWith_pure⟩
  unfold catchType
  split
  · simp
  · split <;> simp

/-- Where unreachable code is told of, the frames have settled, and a block has none. -/
theorem ofCode_unreachable {label : Option Label}
    (h : ofCode code method pool hierarchy = .error ⟨label, .unreachable⟩) :
    ∃ entry flow state, entryOf code method = .ok entry ∧
      flowOf code method pool hierarchy entry = .ok flow ∧
      flow.loop (flow.start entry) = .ok state ∧
      blockFrames flow.blocks state = .error ⟨label, .unreachable⟩ := by
  rcases bind_eq_error.mp h with h | ⟨entry, hentry, h⟩
  · exact ((failsWith_entryOf _ h).1 rfl).elim
  rcases bind_eq_error.mp h with h | ⟨flow, hflow, h⟩
  · exact ((failsWith_flowOf _ h).1 rfl).elim
  rcases bind_eq_error.mp h with h | ⟨state, hloop, h⟩
  · rcases flow.failsWith_loop _ _ h with hlocal | heq
    · exact (hlocal.1 rfl).elim
    · cases heq
  rcases bind_eq_error.mp h with h | ⟨frames, -, h⟩
  · exact ⟨entry, flow, state, hentry, hflow, hloop, h⟩
  · cases h

theorem failsWith_blockFrames (blocks : List Block) (state : FlowState) :
    FailsWith (·.fault = .unreachable) (blockFrames blocks state) := by
  refine .mapM fun block _ => ?_
  split <;> simp

/-- The frames of a method are said not to settle exactly if its blocks are followed for ever. -/
theorem ofCode_eq_unsettled_iff {label : Option Label} :
    ofCode code method pool hierarchy = .error ⟨label, .unsettled⟩ ↔
      label = none ∧ ∃ entry flow, entryOf code method = .ok entry ∧
        flowOf code method pool hierarchy entry = .ok flow ∧
        flow.loop? (flow.start entry) = none := by
  constructor
  · intro h
    rcases bind_eq_error.mp h with h | ⟨entry, hentry, h⟩
    · exact ((failsWith_entryOf _ h).2 rfl).elim
    rcases bind_eq_error.mp h with h | ⟨flow, hflow, h⟩
    · exact ((failsWith_flowOf _ h).2 rfl).elim
    rcases bind_eq_error.mp h with h | ⟨state, -, h⟩
    · rcases flow.failsWith_loop _ _ h with hlocal | heq
      · exact (hlocal.2 rfl).elim
      · cases heq
        exact ⟨rfl, entry, flow, hentry, hflow, Flow.loop_eq_unsettled_iff.mp h⟩
    · rcases bind_eq_error.mp h with h | ⟨frames, -, h⟩
      · cases failsWith_blockFrames _ _ _ h
      · cases h
  · rintro ⟨rfl, entry, flow, hentry, hflow, hloop⟩
    refine bind_eq_error.mpr (.inr ⟨entry, hentry, bind_eq_error.mpr (.inr ⟨flow, hflow, ?_⟩)⟩)
    exact bind_eq_error.mpr (.inl (Flow.loop_eq_unsettled_iff.mpr hloop))

end Analysis

end ClassText
