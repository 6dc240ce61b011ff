import ClassText.Frame.Execution
import ClassText.Proofs.Frame.Order
import ClassText.Proofs.Frame.Slots

/-!
# What instructions bring into frames

An instruction takes types off the stack, moves some of them around, and brings
in types that stand behind its constant. So a property of types is kept by the
frames of a method if all that its instructions bring in has it
(`MethodContext.Gives`). One such property is to be made of classes in scope, and
it holds of all that is brought in if the constants mention no other classes
(`MethodContext.Fits.gives`).

What an operation took off the stack is described by the whole stack that it
found: the values that were taken, and the rest below them.
-/

namespace ClassText

/-! ## Names behind constants -/

/-- The class that a type is made of. -/
def FieldType.name? : FieldType → Option String
  | .base _ => none
  | .ref type => type.name?

/-- The class is among the parameters of the method, or in its result. -/
def MethodType.Mentions (type : MethodType) (name : String) : Prop :=
  ∃ t ∈ type.parameters ++ type.result.toList, FieldType.name? t = some name

/-- The constant that an instruction refers to. -/
def Instruction.constant? : Instruction → Option PoolIndex
  | .loadConstant index _ | .loadWideConstant index | .constantRef _ index
  | .invokeInterface index _ | .invokeDynamic index | .newMultiArray index _ => some index
  | _ => none

/-- The class is that of a constant, or in the descriptor of one, or that of its value. -/
inductive ConstantPool.Mentions (pool : ConstantPool) (index : PoolIndex) (name : String) : Prop
  | ofClass {type : RefType} (h : pool.referredClass index = .ok type)
      (hname : type.name? = some name)
  | ofField {type : FieldType} (h : pool.referredField index = .ok type)
      (hname : type.name? = some name)
  | ofMethod {member : String} {type : MethodType}
      (h : pool.referredMethod index = .ok (member, type)) (hname : type.Mentions name)
  | ofCallSite {type : MethodType} (h : pool.referredCallSite index = .ok type)
      (hname : type.Mentions name)
  | ofValue {type : LiveType} (h : pool.loadedType index = .ok type)
      (hname : LiveType.name? type = some name)

/-- All classes that the constants of the instruction mention are in scope. -/
def Instruction.Fits (scope : String → Prop) (pool : ConstantPool) (insn : Instruction) : Prop :=
  ∀ index, insn.constant? = some index → ∀ name, pool.Mentions index name → scope name

/-- The class of the method and all that its instructions mention are in scope. -/
structure MethodContext.Fits (scope : String → Prop) (ctx : MethodContext) : Prop where
  thisClass : scope ctx.thisClass
  instructions : ∀ insn ∈ ctx.instructions, insn.Fits scope ctx.pool

/-! ## Properties of types -/

namespace LiveType

/-- A type that names no class, and no place where an object was made. -/
def isPlain : LiveType → Bool
  | .object _ | .uninitialized _ => false
  | _ => true

/-- A property of all plain types, and with an array also of its components. -/
structure IsClosed (good : LiveType → Prop) : Prop where
  plain : ∀ {t : LiveType}, t.isPlain = true → good t
  baseArray : ∀ type : BaseType, good (.object (RefType.arrayOf (.base type)))
  component : ∀ {type : RefType} {component : FieldType}, good (.object type) →
    type.component? = some component → good (ofField component)

variable {scope : String → Prop}

theorem fits_ofField {type : FieldType} (h : ∀ name, type.name? = some name → scope name) :
    LiveType.Fits scope (ofField type) := by
  rcases type with base | type
  · cases base <;> exact fun _ hname => nomatch hname
  · exact h

theorem fits_of_name?_eq_none {t : LiveType} (h : LiveType.name? t = none) :
    LiveType.Fits scope t := by
  intro name hname
  rw [h] at hname
  cases hname

theorem name?_arrayOf (type : FieldType) : (RefType.arrayOf type).name? = type.name? := by
  rcases type with base | (name | ⟨extra, base | name⟩) <;> rfl

theorem fits_of_component? {type : RefType} {component : FieldType}
    (hfits : LiveType.Fits scope (.object type)) (h : type.component? = some component) :
    LiveType.Fits scope (ofField component) := by
  refine fits_ofField fun name hname => hfits name ?_
  rcases type with _ | ⟨_ | extra, _ | _⟩ <;> cases h <;> exact hname

theorem isClosed_fits (scope : String → Prop) : IsClosed (LiveType.Fits scope) where
  plain := by
    intro t ht
    cases t <;> first | exact fits_of_name?_eq_none rfl | cases ht
  baseArray := fun _ => fits_of_name?_eq_none rfl
  component := fits_of_component?

end LiveType

/-- What a constant brings into a frame has the property. -/
structure ConstantPool.Gives (pool : ConstantPool) (good : LiveType → Prop) (index : PoolIndex) :
    Prop where
  ofClass : ∀ {type : RefType}, pool.referredClass index = .ok type →
    good (.object type) ∧ good (.object (RefType.arrayOf (.ref type)))
  ofField : ∀ {type : FieldType}, pool.referredField index = .ok type → good (LiveType.ofField type)
  ofMethod : ∀ {member : String} {type : MethodType} {result : FieldType},
    pool.referredMethod index = .ok (member, type) → type.result = some result →
      good (LiveType.ofField result)
  ofCallSite : ∀ {type : MethodType} {result : FieldType},
    pool.referredCallSite index = .ok type → type.result = some result →
      good (LiveType.ofField result)
  ofValue : ∀ {t : LiveType}, pool.loadedType index = .ok t → good t

/-- What the instruction at a label brings into a frame has the property. -/
structure Instruction.Gives (pool : ConstantPool) (good : LiveType → Prop) (label : Label)
    (insn : Instruction) : Prop where
  constant : ∀ index, insn.constant? = some index → pool.Gives good index
  fresh : ∀ {index : PoolIndex} {type : RefType}, insn = .constantRef .new index →
    pool.referredClass index = .ok type → good (.uninitialized label)

/-- What the class of the method and its instructions bring into frames has the property. -/
structure MethodContext.Gives (ctx : MethodContext) (good : LiveType → Prop) : Prop where
  closed : LiveType.IsClosed good
  thisClass : good (LiveType.ofClass ctx.thisClass)
  made : ∀ {site : Label} {index : PoolIndex} {type : RefType},
    ctx.instructions[site]? = some (.constantRef .new index) →
      ctx.pool.referredClass index = .ok type → good (.object type)

theorem ConstantPool.gives_fits {scope : String → Prop} {pool : ConstantPool} {index : PoolIndex}
    (h : ∀ name, pool.Mentions index name → scope name) :
    pool.Gives (LiveType.Fits scope) index where
  ofClass := fun htype => ⟨fun name hname => h name (.ofClass htype hname), fun name hname =>
    h name (.ofClass htype (by rwa [LiveType.name?, LiveType.name?_arrayOf] at hname))⟩
  ofField := fun htype => LiveType.fits_ofField fun name hname => h name (.ofField htype hname)
  ofMethod := fun htype hresult => LiveType.fits_ofField fun name hname =>
    h name (.ofMethod htype ⟨_, List.mem_append_right _ (Option.mem_toList.mpr hresult), hname⟩)
  ofCallSite := fun htype hresult => LiveType.fits_ofField fun name hname =>
    h name (.ofCallSite htype ⟨_, List.mem_append_right _ (Option.mem_toList.mpr hresult), hname⟩)
  ofValue := fun htype name hname => h name (.ofValue htype hname)

theorem Instruction.Fits.gives {scope : String → Prop} {pool : ConstantPool} {insn : Instruction}
    (h : insn.Fits scope pool) (label : Label) : insn.Gives pool (LiveType.Fits scope) label :=
  ⟨fun index hindex => ConstantPool.gives_fits (h index hindex),
    fun _ _ => LiveType.fits_of_name?_eq_none rfl⟩

theorem MethodContext.Fits.gives {scope : String → Prop} {ctx : MethodContext}
    (h : ctx.Fits scope) : ctx.Gives (LiveType.Fits scope) where
  closed := LiveType.isClosed_fits scope
  thisClass := fun _ hname => Option.some.inj hname ▸ h.thisClass
  made := by
    intro site index type hnew htype name hname
    obtain ⟨hlt, hnew⟩ := Array.getElem?_eq_some_iff.mp hnew
    have hmem := hnew ▸ Array.getElem_mem hlt
    exact h.instructions _ hmem _ rfl name (.ofClass htype hname)

/-- All types on a stack have the property. -/
def OperandStack.Holds (good : LiveType → Prop) (stack : OperandStack) : Prop :=
  ∀ t ∈ stack, good t

/-! ## What is taken off a stack -/

namespace OperandStack

theorem pop_eq_ok {stack rest : OperandStack} {t : LiveType} (h : pop stack = .ok (t, rest)) :
    stack = t :: rest := by
  cases stack with
  | nil => cases h
  | cons u below => cases h; rfl

theorem popType_eq_ok {type : LiveType} {stack rest : OperandStack}
    (h : popType type stack = .ok rest) : stack = type :: rest := by
  obtain ⟨⟨t, below⟩, hpop, h⟩ := Success.bind_eq_ok.mp h
  dsimp only at h
  split at h
  · next heq =>
    obtain rfl := Except.ok.inj h
    rw [pop_eq_ok hpop, heq]
  · cases h

theorem popTypes_eq_ok {types : List LiveType} {stack rest : OperandStack}
    (h : popTypes types stack = .ok rest) : stack = types ++ rest := by
  induction types generalizing stack with
  | nil => exact Except.ok.inj h
  | cons type types ih =>
    obtain ⟨below, htype, h⟩ := Success.bind_eq_ok.mp (show
      (popType type stack >>= popTypes types) = .ok rest from h)
    rw [popType_eq_ok htype, ih h, List.cons_append]

theorem popReference_eq_ok {stack rest : OperandStack} {t : LiveType}
    (h : popReference stack = .ok (t, rest)) : stack = t :: rest := by
  obtain ⟨⟨u, below⟩, hpop, h⟩ := Success.bind_eq_ok.mp h
  dsimp only at h
  split at h
  · cases h
    exact pop_eq_ok hpop
  · cases h

variable {good : LiveType → Prop}

theorem Holds.cons {t : LiveType} {stack : OperandStack} (ht : good t)
    (hstack : Holds good stack) : Holds good (t :: stack) :=
  List.forall_mem_cons.mpr ⟨ht, hstack⟩

theorem Holds.of_append {taken rest : OperandStack} (h : Holds good (taken ++ rest)) :
    Holds good rest :=
  fun t ht => h t (List.mem_append_right _ ht)

theorem Holds.head {t : LiveType} {rest : OperandStack} (h : Holds good (t :: rest)) :
    good t :=
  h t List.mem_cons_self

theorem Holds.tail {t : LiveType} {rest : OperandStack} (h : Holds good (t :: rest)) :
    Holds good rest :=
  fun u hu => h u (List.mem_cons_of_mem _ hu)

theorem Holds.popType {type : LiveType} {stack rest : OperandStack} (h : Holds good stack)
    (hpop : popType type stack = .ok rest) : Holds good rest :=
  (popType_eq_ok hpop ▸ h).tail

theorem Holds.popTypes {types : List LiveType} {stack rest : OperandStack} (h : Holds good stack)
    (hpop : popTypes types stack = .ok rest) : Holds good rest :=
  (popTypes_eq_ok hpop ▸ h).of_append

theorem Holds.popReference {t : LiveType} {stack rest : OperandStack} (h : Holds good stack)
    (hpop : popReference stack = .ok (t, rest)) : Holds good (t :: rest) :=
  popReference_eq_ok hpop ▸ h

theorem Holds.pop {t : LiveType} {stack rest : OperandStack} (h : Holds good stack)
    (hpop : pop stack = .ok (t, rest)) : Holds good (t :: rest) :=
  pop_eq_ok hpop ▸ h

end OperandStack

/-! ## Variables -/

namespace LiveFrame

variable {good : LiveType → Prop} {slots : Nat} {frame : LiveFrame}

theorem getElem?_of_slotType {index : Nat} {t : LiveType} (h : frame.slotType index = .ok t) :
    frame.locals[index]? = some t := by
  unfold LiveFrame.slotType at h
  split at h
  · next hindex =>
    cases h
    exact hindex
  · cases h

theorem lt_of_slotType {index : Nat} {t : LiveType} (h : frame.slotType index = .ok t) :
    index < frame.locals.length :=
  (List.getElem?_eq_some_iff.mp (getElem?_of_slotType h)).1

theorem length_setSlot (locals : List LiveType) (index : Nat) (t : LiveType) :
    (setSlot locals index t).length = locals.length := by
  unfold setSlot
  dsimp only
  split <;> split <;> simp only [List.length_set]

theorem mem_setSlot {locals : List LiveType} {index : Nat} {t u : LiveType}
    (h : u ∈ setSlot locals index t) : u ∈ locals ∨ u = t ∨ u = .top := by
  unfold setSlot at h
  dsimp only at h
  have hset {types : List LiveType} {i : Nat} {v : LiveType} (hu : u ∈ types.set i v) :
      u ∈ types ∨ u = v := List.mem_or_eq_of_mem_set hu
  split at h <;> split at h
  · rcases hset h with h | h
    · rcases hset h with h | h
      · rcases hset h with h | h <;> tauto
      · tauto
    · tauto
  · rcases hset h with h | h
    · rcases hset h with h | h <;> tauto
    · tauto
  · rcases hset h with h | h
    · rcases hset h with h | h <;> tauto
    · tauto
  · rcases hset h with h | h <;> tauto

theorem isSpread_setSlot {locals : List LiveType} {index : Nat} {t : LiveType}
    (h : VerificationType.IsSpread locals) (hroom : index + t.width ≤ locals.length) :
    VerificationType.IsSpread (setSlot locals index t) := by
  intro i u hu hwide
  -- A wide value right before the slot is gone, a wide value in the slot has its second slot set,
  -- and what is farther away has its second slot from before.
  have htop : (VerificationType.top : LiveType).width = 1 := rfl
  have hfar := h i
  have hbefore := h (index - 1)
  unfold setSlot at hu ⊢
  grind

/-- A load finds the type in the slot, and a second slot behind it for a value of width two. -/
theorem load_eq_ok {index : Nat} {t : LiveType} {after : LiveFrame}
    (h : frame.load index t = .ok after) :
    frame.slotType index = .ok t ∧ index + t.width ≤ frame.locals.length ∧
      after = frame.push t := by
  obtain ⟨u, hu, h⟩ := Success.bind_eq_ok.mp h
  obtain ⟨heq, h⟩ := Success.check_eq_ok.mp h
  obtain ⟨hroom, h⟩ := Success.check_eq_ok.mp h
  rw [ne_eq, Decidable.not_not] at heq
  subst heq
  refine ⟨hu, ?_, (Except.ok.inj h).symm⟩
  have hindex := lt_of_slotType hu
  have hle := u.width_le_two
  omega

theorem loadReference_eq_ok {index : Nat} {after : LiveFrame}
    (h : frame.loadReference index = .ok after) :
    ∃ t, frame.slotType index = .ok t ∧ t.isReference = true ∧ after = frame.push t := by
  obtain ⟨t, ht, h⟩ := Success.bind_eq_ok.mp h
  split at h
  · next href => exact ⟨t, ht, href, (Except.ok.inj h).symm⟩
  · cases h

theorem store_eq_ok {index : Nat} {allowed : LiveType → Bool} {after : LiveFrame}
    (h : frame.store index allowed = .ok after) :
    ∃ t rest, frame.stack = t :: rest ∧ allowed t = true ∧
      index + t.width ≤ frame.locals.length ∧ after = ⟨setSlot frame.locals index t, rest⟩ := by
  obtain ⟨⟨t, rest⟩, hpop, h⟩ := Success.bind_eq_ok.mp h
  obtain ⟨hallowed, h⟩ := Success.check_eq_ok.mp h
  obtain ⟨hroom, h⟩ := Success.check_eq_ok.mp h
  refine ⟨t, rest, OperandStack.pop_eq_ok hpop, by simpa using hallowed, Nat.le_of_not_lt hroom, ?_⟩
  exact (Except.ok.inj h).symm

theorem Holds.caught (h : frame.Holds good slots) {type : RefType}
    (htype : good (.object type)) : (frame.caught type).Holds good slots :=
  ⟨h.slots, h.spread, h.locals, fun _ ht => List.mem_singleton.mp ht ▸ htype⟩

end LiveFrame

end ClassText
