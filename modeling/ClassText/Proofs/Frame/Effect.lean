import ClassText.Proofs.Frame.Scope

/-!
# What an instruction does to a frame

Everything that an instruction can do to the frame before it, said once
(`execute_effect`). The types it leaves on the stack were in the frame, or come
from its constant, or are plain (`MethodContext.Yields`). The variables change only
by a store, or where a constructor was called (`MethodContext.Writes`).

What is known of the frames after instructions is derived from this, and no proof
looks at the instructions again.
-/

namespace ClassText

open OperandStack

/-- The type is one that a constant brings into a frame. -/
inductive ConstantPool.Supplies (pool : ConstantPool) (index : PoolIndex) : LiveType → Prop
  | ofClass {type : RefType} (h : pool.referredClass index = .ok type) :
    Supplies pool index (.object type)
  | arrayOf {type : RefType} (h : pool.referredClass index = .ok type) :
    Supplies pool index (.object (RefType.arrayOf (.ref type)))
  | ofField {type : FieldType} (h : pool.referredField index = .ok type) :
    Supplies pool index (LiveType.ofField type)
  | ofMethod {member : String} {type : MethodType} {result : FieldType}
    (h : pool.referredMethod index = .ok (member, type)) (hresult : type.result = some result) :
    Supplies pool index (LiveType.ofField result)
  | ofCallSite {type : MethodType} {result : FieldType}
    (h : pool.referredCallSite index = .ok type) (hresult : type.result = some result) :
    Supplies pool index (LiveType.ofField result)
  | ofValue {t : LiveType} (h : pool.loadedType index = .ok t) : Supplies pool index t

namespace MethodContext

section
variable (ctx : MethodContext) (frame : LiveFrame) (label : Label) (insn : Instruction)

/-- Where a type on the stack after an instruction may come from. -/
inductive Yields : LiveType → Prop
  | kept {t : LiveType} (h : t ∈ frame.stack) : Yields t
  | loaded {t : LiveType} (h : t ∈ frame.locals) (husable : t ≠ .top) : Yields t
  | plain {t : LiveType} (h : t.isPlain = true) (husable : t ≠ .top) : Yields t
  | baseArray (type : BaseType) : Yields (.object (RefType.arrayOf (.base type)))
  | component {type : RefType} {component : FieldType} (h : .object type ∈ frame.stack)
    (hcomponent : type.component? = some component) : Yields (LiveType.ofField component)
  | constructed {old : LiveType} {type : RefType} (h : old ∈ frame.stack)
    (htype : ctx.initializedClass old = .ok type) : Yields (.object type)
  | fresh {index : PoolIndex} {type : RefType} (h : insn = .constantRef .new index)
    (htype : ctx.pool.referredClass index = .ok type) : Yields (.uninitialized label)
  | constant {index : PoolIndex} {t : LiveType} (h : insn.constant? = some index)
    (ht : ctx.pool.Supplies index t) : Yields t

/-- What the variables may be after an instruction. -/
inductive Writes : List LiveType → Prop
  | unchanged : Writes frame.locals
  | stored {t : LiveType} {index : Nat} (ht : t ∈ frame.stack)
    (hroom : index + t.width ≤ frame.locals.length) :
    Writes (LiveFrame.setSlot frame.locals index t)
  | constructed {old : LiveType} {type : RefType} (hold : old ∈ frame.stack)
    (htype : ctx.initializedClass old = .ok type) :
    Writes (frame.locals.map fun t => if t = old then .object type else t)

/-- The frame after an instruction has come from the one before it. -/
structure Effect (after : LiveFrame) : Prop where
  stack : OperandStack.Holds (ctx.Yields frame label insn) after.stack
  locals : ctx.Writes frame after.locals

end

variable {ctx : MethodContext} {frame after : LiveFrame} {label : Label} {insn : Instruction}

theorem Effect.left {rest : OperandStack} (hrest : OperandStack.Holds (· ∈ frame.stack) rest) :
    ctx.Effect frame label insn { frame with stack := rest } :=
  ⟨fun t ht => .kept (hrest t ht), .unchanged⟩

theorem Effect.push {t : LiveType} {rest : OperandStack}
    (hrest : OperandStack.Holds (· ∈ frame.stack) rest) (ht : ctx.Yields frame label insn t) :
    ctx.Effect frame label insn { frame with stack := t :: rest } :=
  ⟨.cons ht fun t ht => .kept (hrest t ht), .unchanged⟩

/-- A stack from which nothing has been taken. -/
theorem holds_mem (stack : OperandStack) : OperandStack.Holds (· ∈ stack) stack :=
  fun _ ht => ht

end MethodContext

/-! ## Instructions without operands -/

namespace SimpleAction

/-- Does the action only bring in plain types, and only of values that can be used? -/
def isPlain : SimpleAction → Bool
  | .operate _ result => result.all fun t => t.isPlain && t ≠ .top
  | .loadElement t => t.isPlain && t ≠ .top
  | _ => true

-- One opcode after the other: splitting on the table would compare each with all before it.
theorem isPlain_of_action? {opcode : Opcode} {action : SimpleAction}
    (h : opcode.action? = some action) : action.isPlain := by
  have hall : ∀ n : Fin 256, (Opcode.action? ⟨⟨n⟩⟩).all isPlain := by decide +kernel
  have hopcode := hall opcode.toBitVec.toFin
  rw [show (⟨⟨opcode.toBitVec.toFin⟩⟩ : Opcode) = opcode from rfl, h] at hopcode
  exact hopcode

variable {ctx : MethodContext} {frame : LiveFrame} {label : Label} {insn : Instruction}

theorem yields_of_isPlain {t : LiveType} (h : (t.isPlain && t ≠ .top) = true) :
    ctx.Yields frame label insn t := by
  rw [Bool.and_eq_true, decide_eq_true_eq] at h
  exact .plain h.1 h.2

theorem yields_componentOf {array component : LiveType} (harray : array ∈ frame.stack)
    (h : componentOf array = .ok component) : ctx.Yields frame label insn component := by
  unfold componentOf at h
  split at h
  · cases h
    exact .plain rfl nofun
  · split at h
    · next hcomponent =>
      cases h
      exact .component harray hcomponent
    · cases h
  · cases h

theorem effect_run {action : SimpleAction} (hplain : action.isPlain) {stack : OperandStack}
    (h : action.run frame.stack = .ok stack) :
    ctx.Effect frame label insn { frame with stack := stack } := by
  have hstack := MethodContext.holds_mem frame.stack
  cases action with
  | operate operands result =>
    obtain ⟨rest, hrest, h⟩ := Success.bind_eq_ok.mp h
    cases h
    cases result with
    | none => exact .left (hstack.popTypes hrest)
    | some t => exact .push (hstack.popTypes hrest) (yields_of_isPlain hplain)
  | shuffle form => exact .left (mem_of_mem_move h)
  | loadElement type =>
    obtain ⟨rest, hrest, h⟩ := Success.bind_eq_ok.mp h
    obtain ⟨⟨array, below⟩, harray, h⟩ := Success.bind_eq_ok.mp h
    cases h
    exact .push ((hstack.popType hrest).popReference harray).tail (yields_of_isPlain hplain)
  | loadReference =>
    obtain ⟨rest, hrest, h⟩ := Success.bind_eq_ok.mp h
    obtain ⟨⟨array, below⟩, harray, h⟩ := Success.bind_eq_ok.mp h
    obtain ⟨component, hcomponent, h⟩ := Success.bind_eq_ok.mp h
    cases h
    have hpopped := (hstack.popType hrest).popReference harray
    exact .push hpopped.tail (yields_componentOf hpopped.head hcomponent)
  | storeElement type =>
    obtain ⟨rest, hrest, h⟩ := Success.bind_eq_ok.mp h
    obtain ⟨⟨array, below⟩, harray, h⟩ := Success.bind_eq_ok.mp h
    cases h
    exact .left ((hstack.popTypes hrest).popReference harray).tail
  | storeReference =>
    obtain ⟨⟨value, rest⟩, hvalue, h⟩ := Success.bind_eq_ok.mp h
    obtain ⟨rest', hrest, h⟩ := Success.bind_eq_ok.mp h
    obtain ⟨⟨array, below⟩, harray, h⟩ := Success.bind_eq_ok.mp h
    cases h
    exact .left (((hstack.popReference hvalue).tail.popType hrest).popReference harray).tail
  | dropReference =>
    obtain ⟨⟨value, rest⟩, hvalue, h⟩ := Success.bind_eq_ok.mp h
    cases h
    exact .left (hstack.popReference hvalue).tail
  | arrayLength =>
    obtain ⟨⟨array, rest⟩, harray, h⟩ := Success.bind_eq_ok.mp h
    dsimp only at h
    split at h
    · cases h
      exact .push (hstack.popReference harray).tail (.plain rfl nofun)
    · cases h

end SimpleAction

namespace MethodContext

variable {ctx : MethodContext} {frame after : LiveFrame} {label : Label} {insn : Instruction}

/-! ## Calls -/

theorem holds_popArguments {good : LiveType → Prop} :
    ∀ {parameters : List FieldType} {stack rest : OperandStack}, OperandStack.Holds good stack →
      popArguments parameters stack = .ok rest → OperandStack.Holds good rest := by
  intro parameters
  unfold MethodContext.popArguments
  induction parameters.reverse with
  | nil =>
    intro stack rest hstack h
    cases h
    exact hstack
  | cons parameter parameters ih =>
    intro stack rest hstack h
    rw [List.foldlM_cons] at h
    obtain ⟨below, hbelow, h⟩ := Success.bind_eq_ok.mp h
    obtain ⟨⟨t, rest'⟩, hpop, hbelow⟩ := Success.bind_eq_ok.mp hbelow
    dsimp only at hbelow
    split at hbelow
    · cases hbelow
      exact ih (hstack.pop hpop).tail h
    · cases hbelow

theorem effect_popReceiver {stack : OperandStack}
    (hstack : OperandStack.Holds (· ∈ frame.stack) stack) {receiver : Receiver}
    (h : ctx.popReceiver { frame with stack := stack } receiver = .ok after) :
    ctx.Effect frame label insn after := by
  cases receiver with
  | none =>
    cases h
    exact .left hstack
  | object =>
    obtain ⟨⟨t, rest⟩, hpop, h⟩ := Success.bind_eq_ok.mp h
    dsimp only at h
    split at h <;> cases h <;> exact .left (hstack.pop hpop).tail
  | fresh =>
    obtain ⟨⟨t, rest⟩, hpop, h⟩ := Success.bind_eq_ok.mp h
    obtain ⟨type, htype, h⟩ := Success.bind_eq_ok.mp h
    cases h
    have hpopped := hstack.pop hpop
    refine ⟨fun u hu => ?_, .constructed hpopped.head htype⟩
    obtain ⟨v, hv, rfl⟩ := List.mem_map.mp hu
    split
    · exact .constructed hpopped.head htype
    · exact .kept (hpopped.tail v hv)

theorem effect_invoke {type : MethodType} {receiver : Receiver}
    (hresult : ∀ result, type.result = some result →
      ctx.Yields frame label insn (LiveType.ofField result))
    (h : ctx.invoke frame type receiver = .ok after) : ctx.Effect frame label insn after := by
  obtain ⟨stack, hstack, h⟩ := Success.bind_eq_ok.mp h
  obtain ⟨popped, hpopped, h⟩ := Success.bind_eq_ok.mp h
  cases h
  have heffect : ctx.Effect frame label insn popped :=
    effect_popReceiver (holds_popArguments (holds_mem _) hstack) hpopped
  refine ⟨fun t ht => ?_, heffect.locals⟩
  rcases List.mem_append.mp ht with ht | ht
  · obtain ⟨result, hsome, rfl⟩ := Option.map_eq_some_iff.mp (Option.mem_toList.mp ht)
    exact hresult result hsome
  · exact heffect.stack t ht

theorem effect_invokeMethod {index : PoolIndex} {member : String} {type : MethodType}
    (hindex : insn.constant? = some index)
    (htype : ctx.pool.referredMethod index = .ok (member, type))
    {receiver : Receiver} (h : ctx.invoke frame type receiver = .ok after) :
    ctx.Effect frame label insn after :=
  effect_invoke (fun _ hresult => .constant hindex (.ofMethod htype hresult)) h

/-! ## Groups of instructions -/

theorem effect_load {index : Nat} {t : LiveType} (h : frame.load index t = .ok after)
    (husable : t ≠ .top) : ctx.Effect frame label insn after := by
  obtain ⟨ht, -, rfl⟩ := LiveFrame.load_eq_ok h
  have hmem := List.mem_of_getElem? (LiveFrame.getElem?_of_slotType ht)
  exact .push (holds_mem _) (.loaded hmem husable)

theorem effect_store {index : Nat} {allowed : LiveType → Bool}
    (h : frame.store index allowed = .ok after) : ctx.Effect frame label insn after := by
  obtain ⟨t, rest, hstack, -, hroom, rfl⟩ := LiveFrame.store_eq_ok h
  have hpopped : OperandStack.Holds (· ∈ frame.stack) (t :: rest) := hstack ▸ holds_mem _
  exact ⟨fun u hu => .kept (hpopped.tail u hu), .stored hpopped.head hroom⟩

theorem effect_executeSlot {opcode : Opcode} {index : Nat}
    (h : executeSlot frame opcode index = .ok after) : ctx.Effect frame label insn after := by
  unfold MethodContext.executeSlot at h
  split at h
  · exact effect_load h nofun
  · exact effect_load h nofun
  · exact effect_load h nofun
  · exact effect_load h nofun
  · obtain ⟨t, ht, href, rfl⟩ := LiveFrame.loadReference_eq_ok h
    have hmem := List.mem_of_getElem? (LiveFrame.getElem?_of_slotType ht)
    refine .push (holds_mem _) (.loaded hmem ?_)
    rintro rfl
    cases href
  · exact effect_store h
  · exact effect_store h
  · exact effect_store h
  · exact effect_store h
  · exact effect_store h
  · cases h

theorem holds_executeBranch {good : LiveType → Prop} {stack rest : OperandStack}
    (hstack : OperandStack.Holds good stack) {opcode : Opcode}
    (h : executeBranch stack opcode = .ok rest) : OperandStack.Holds good rest := by
  unfold MethodContext.executeBranch at h
  split at h
  · exact hstack.popType h
  split at h
  · exact hstack.popTypes h
  split at h
  · obtain ⟨⟨first, below⟩, hfirst, h⟩ := Success.bind_eq_ok.mp h
    obtain ⟨⟨second, below'⟩, hsecond, h⟩ := Success.bind_eq_ok.mp h
    cases h
    exact ((hstack.popReference hfirst).tail.popReference hsecond).tail
  split at h
  · obtain ⟨⟨t, below⟩, hpop, h⟩ := Success.bind_eq_ok.mp h
    cases h
    exact (hstack.popReference hpop).tail
  split at h
  · cases h
    exact hstack
  · cases h

theorem effect_executeLoad {index : PoolIndex} {width : Nat} (hindex : insn.constant? = some index)
    (h : ctx.executeLoad frame index width = .ok after) : ctx.Effect frame label insn after := by
  obtain ⟨type, htype, h⟩ := Success.bind_eq_ok.mp h
  split at h
  · cases h
    exact .push (holds_mem _) (.constant hindex (.ofValue htype))
  · cases h

theorem effect_executeConstantRef {opcode : Opcode} {index : PoolIndex}
    (h : ctx.executeConstantRef frame label opcode index = .ok after) :
    ctx.Effect frame label (.constantRef opcode index) after := by
  have hstack := holds_mem frame.stack
  unfold MethodContext.executeConstantRef at h
  split at h
  · obtain ⟨type, htype, h⟩ := Success.bind_eq_ok.mp h
    cases h
    exact .push hstack (.constant rfl (.ofField htype))
  · obtain ⟨⟨t, rest⟩, hpop, h⟩ := Success.bind_eq_ok.mp h
    cases h
    exact .left (hstack.pop hpop).tail
  · obtain ⟨type, htype, h⟩ := Success.bind_eq_ok.mp h
    obtain ⟨⟨t, rest⟩, hpop, h⟩ := Success.bind_eq_ok.mp h
    cases h
    exact .push (hstack.popReference hpop).tail (.constant rfl (.ofField htype))
  · obtain ⟨⟨t, rest⟩, hpop, h⟩ := Success.bind_eq_ok.mp h
    obtain ⟨⟨u, rest'⟩, hpop', h⟩ := Success.bind_eq_ok.mp h
    cases h
    exact .left ((hstack.pop hpop).tail.popReference hpop').tail
  · obtain ⟨⟨member, type⟩, htype, h⟩ := Success.bind_eq_ok.mp h
    exact effect_invokeMethod rfl htype h
  · obtain ⟨⟨member, type⟩, htype, h⟩ := Success.bind_eq_ok.mp h
    exact effect_invokeMethod rfl htype h
  · obtain ⟨⟨member, type⟩, htype, h⟩ := Success.bind_eq_ok.mp h
    exact effect_invokeMethod rfl htype h
  · obtain ⟨type, htype, h⟩ := Success.bind_eq_ok.mp h
    cases h
    exact .push hstack (.fresh rfl htype)
  · obtain ⟨type, htype, h⟩ := Success.bind_eq_ok.mp h
    obtain ⟨rest, hpop, h⟩ := Success.bind_eq_ok.mp h
    cases h
    exact .push (hstack.popType hpop) (.constant rfl (.arrayOf htype))
  · obtain ⟨type, htype, h⟩ := Success.bind_eq_ok.mp h
    obtain ⟨⟨t, rest⟩, hpop, h⟩ := Success.bind_eq_ok.mp h
    cases h
    exact .push (hstack.popReference hpop).tail (.constant rfl (.ofClass htype))
  · obtain ⟨type, htype, h⟩ := Success.bind_eq_ok.mp h
    obtain ⟨⟨t, rest⟩, hpop, h⟩ := Success.bind_eq_ok.mp h
    cases h
    exact .push (hstack.popReference hpop).tail (.plain rfl nofun)
  · cases h

theorem execute_effect (h : ctx.execute frame label insn = .ok after) :
    ctx.Effect frame label insn after := by
  have hstack := holds_mem frame.stack
  cases insn with
  | simple opcode =>
    simp only [execute] at h
    split at h
    · next action haction =>
      obtain ⟨stack, hrun, h⟩ := Success.bind_eq_ok.mp h
      cases h
      exact SimpleAction.effect_run (SimpleAction.isPlain_of_action? haction) hrun
    · cases h
  | pushByte value =>
    cases h
    exact .push hstack (.plain rfl nofun)
  | pushShort value =>
    cases h
    exact .push hstack (.plain rfl nofun)
  | loadConstant index wide => exact effect_executeLoad rfl h
  | loadWideConstant index => exact effect_executeLoad rfl h
  | slot opcode index form => exact effect_executeSlot h
  | increment index step wide =>
    obtain ⟨t, ht, h⟩ := Success.bind_eq_ok.mp h
    split at h
    · cases h
      exact .left hstack
    · cases h
  | branch opcode target =>
    obtain ⟨stack, hrest, h⟩ := Success.bind_eq_ok.mp h
    cases h
    exact .left (holds_executeBranch hstack hrest)
  | tableSwitch default low targets =>
    obtain ⟨stack, hrest, h⟩ := Success.bind_eq_ok.mp h
    cases h
    exact .left (hstack.popType hrest)
  | lookupSwitch default pairs =>
    obtain ⟨stack, hrest, h⟩ := Success.bind_eq_ok.mp h
    cases h
    exact .left (hstack.popType hrest)
  | constantRef opcode index => exact effect_executeConstantRef h
  | invokeInterface index count =>
    obtain ⟨⟨member, type⟩, htype, h⟩ := Success.bind_eq_ok.mp h
    exact effect_invokeMethod rfl htype h
  | invokeDynamic index =>
    obtain ⟨type, htype, h⟩ := Success.bind_eq_ok.mp h
    exact effect_invoke (fun _ hresult => .constant rfl (.ofCallSite htype hresult)) h
  | newArray code =>
    simp only [execute] at h
    split at h
    · cases h
    · next type _ =>
      obtain ⟨rest, hpop, h⟩ := Success.bind_eq_ok.mp h
      cases h
      exact .push (hstack.popType hpop) (.baseArray type)
  | newMultiArray index dimensions =>
    obtain ⟨type, htype, h⟩ := Success.bind_eq_ok.mp h
    obtain ⟨rest, hpop, h⟩ := Success.bind_eq_ok.mp h
    cases h
    exact .push (hstack.popTypes hpop) (.constant rfl (.ofClass htype))

end MethodContext

end ClassText
