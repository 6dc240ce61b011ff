import ClassText.Frame.Execution
import ClassText.Proofs.Frame.Slots

/-!
# The stack slot by slot

A machine that knows nothing of types moves slots around: so many from the top
are dropped, or copied below those that follow them, or the two on top change
places (`Shuffle.onSlots`). On a stack of types a value of width two takes two
slots that belong together, so what is moved may not begin or end within it.

That is all that is asked. A move succeeds exactly if there are as many slots as
it needs and no value is cut at the ends of what is moved
(`OperandStack.exists_shuffle_iff`), and it leaves what the machine leaves
(`OperandStack.expand_shuffle`). Between the ends values of width two may stand
wherever they like, which is why the instructions have so many forms.
-/

namespace ClassText

/-- A slot of the stack: a value of width one, or half of a value of width two. -/
inductive StackSlot where
  | whole (type : LiveType)
  | upper (type : LiveType)
  | lower (type : LiveType)
deriving DecidableEq, Repr

/-- There are so many slots, and below them no value goes on that begins in them. -/
def StackSlot.IsBoundary (slots : List StackSlot) (depth : Nat) : Prop :=
  depth ≤ slots.length ∧ ∀ type, slots[depth]? ≠ some (.lower type)

namespace Shuffle

/-- What the move is to a machine that only knows slots. -/
def onSlots : Shuffle → List StackSlot → List StackSlot
  | drop count, slots => slots.drop count
  | copy count under, slots =>
    slots.take (count + under) ++ slots.take count ++ slots.drop (count + under)
  | swap, first :: second :: rest => second :: first :: rest
  | swap, slots => slots

/-- Where the slots end that are moved, and those that they are moved under, from the top. -/
def ends : Shuffle → List Nat
  | drop count => [count]
  | copy count under => [count, count + under]
  | swap => [1, 2]

end Shuffle

namespace OperandStack

variable {count under depth : Nat} {stack stack' taken between rest rest' : OperandStack}

/-- The slots of a stack, the top first. -/
def expand (stack : OperandStack) : List StackSlot :=
  stack.flatMap fun t => if t.width = 2 then [.upper t, .lower t] else [.whole t]

theorem expand_cons (t : LiveType) (stack : OperandStack) :
    expand (t :: stack) =
      (if t.width = 2 then [.upper t, .lower t] else [.whole t]) ++ expand stack :=
  List.flatMap_cons

theorem expand_append (stack others : OperandStack) :
    expand (stack ++ others) = expand stack ++ expand others :=
  List.flatMap_append

theorem length_expand_cons (t : LiveType) (stack : OperandStack) :
    (expand (t :: stack)).length = t.width + (expand stack).length := by
  have hpos := t.width_pos
  have hle := t.width_le_two
  rw [expand_cons, List.length_append]
  split <;> simp only [List.length_cons, List.length_nil] <;> omega

theorem isBoundary_zero (stack : OperandStack) : StackSlot.IsBoundary (expand stack) 0 := by
  refine ⟨Nat.zero_le _, fun type htype => ?_⟩
  cases stack with
  | nil => cases htype
  | cons t stack =>
    rw [expand_cons] at htype
    split at htype <;> cases htype

/-- Below values that take so many slots, values end where they end in the rest. -/
theorem isBoundary_append_iff (h : (expand taken).length = count) :
    StackSlot.IsBoundary (expand (taken ++ rest)) (count + depth) ↔
      StackSlot.IsBoundary (expand rest) depth := by
  subst h
  simp only [StackSlot.IsBoundary, expand_append, List.length_append, Nat.add_le_add_iff_left,
    List.getElem?_append_right (Nat.le_add_right _ _), Nat.add_sub_cancel_left]

/-! ## Taking slots -/

/-- Slots are taken as whole values. -/
theorem takeSlots_eq_ok_iff :
    takeSlots count stack = .ok (taken, rest) ↔
      stack = taken ++ rest ∧ (expand taken).length = count := by
  constructor
  · intro h
    refine ⟨takeSlots_eq_ok h, ?_⟩
    induction count, stack using takeSlots.induct generalizing taken rest with
    | case1 stack =>
      rw [takeSlots] at h
      cases h
      rfl
    | case2 count =>
      rw [takeSlots] at h
      cases h
    | case3 count t stack hcut =>
      rw [takeSlots, if_pos hcut] at h
      cases h
    | case4 count t stack hfits ih =>
      rw [takeSlots, if_neg hfits] at h
      obtain ⟨⟨others, below⟩, hothers, h⟩ := Success.bind_eq_ok.mp h
      cases h
      rw [length_expand_cons, ih hothers]
      omega
  · rintro ⟨rfl, hlength⟩
    induction taken generalizing count with
    | nil =>
      obtain rfl : 0 = count := hlength
      rw [takeSlots, List.nil_append]
    | cons t taken ih =>
      rw [length_expand_cons] at hlength
      have hpos := t.width_pos
      obtain ⟨count, rfl⟩ : ∃ n, count = n + 1 := ⟨count - 1, by omega⟩
      have hrest : takeSlots (count + 1 - t.width) (taken ++ rest) = .ok (taken, rest) :=
        ih (by omega)
      rw [List.cons_append, takeSlots, if_neg (by omega), hrest]
      rfl

theorem exists_takeSlots_iff :
    (∃ taken rest, takeSlots count stack = .ok (taken, rest)) ↔
      StackSlot.IsBoundary (expand stack) count := by
  simp only [takeSlots_eq_ok_iff]
  constructor
  · rintro ⟨taken, rest, rfl, hlength⟩
    exact (isBoundary_append_iff hlength).mpr (isBoundary_zero rest)
  · intro h
    induction stack generalizing count with
    | nil =>
      obtain rfl : count = 0 := Nat.le_zero.mp h.1
      exact ⟨[], [], rfl, rfl⟩
    | cons t stack ih =>
      by_cases hzero : count = 0
      · exact ⟨[], t :: stack, rfl, hzero.symm⟩
      have hle := t.width_le_two
      -- One slot of a value of width two would be its upper half.
      have hfits : t.width ≤ count := by
        by_contra hcut
        obtain rfl : count = 1 := by omega
        refine h.2 t ?_
        rw [expand_cons, if_pos (by omega)]
        rfl
      obtain ⟨others, rfl⟩ := Nat.exists_eq_add_of_le hfits
      have hone : (expand [t]).length = t.width := length_expand_cons t []
      obtain ⟨taken, rest, rfl, hlength⟩ := ih ((isBoundary_append_iff hone).mp h)
      exact ⟨t :: taken, rest, rfl, by rw [length_expand_cons, hlength]⟩

/-- Slots are taken twice, the second time from what is left. -/
theorem exists_takeSlots_twice_iff (count under : Nat) :
    (∃ taken rest between rest', takeSlots count stack = .ok (taken, rest) ∧
        takeSlots under rest = .ok (between, rest')) ↔
      StackSlot.IsBoundary (expand stack) count ∧
        StackSlot.IsBoundary (expand stack) (count + under) := by
  constructor
  · rintro ⟨taken, rest, between, rest', hfirst, hsecond⟩
    refine ⟨exists_takeSlots_iff.mp ⟨_, _, hfirst⟩, ?_⟩
    obtain ⟨rfl, hlength⟩ := takeSlots_eq_ok_iff.mp hfirst
    exact (isBoundary_append_iff hlength).mpr (exists_takeSlots_iff.mp ⟨_, _, hsecond⟩)
  · rintro ⟨hfirst, hsecond⟩
    obtain ⟨taken, rest, htaken⟩ := exists_takeSlots_iff.mpr hfirst
    obtain ⟨rfl, hlength⟩ := takeSlots_eq_ok_iff.mp htaken
    obtain ⟨between, rest', hbetween⟩ :=
      exists_takeSlots_iff.mpr ((isBoundary_append_iff hlength).mp hsecond)
    exact ⟨taken, rest, between, rest', htaken, hbetween⟩

/-! ## Moves -/

theorem shuffle_drop_eq_ok_iff :
    shuffle (.drop count) stack = .ok stack' ↔
      ∃ taken, takeSlots count stack = .ok (taken, stack') := by
  constructor
  · intro h
    obtain ⟨⟨taken, rest⟩, htaken, h⟩ := Success.bind_eq_ok.mp h
    cases h
    exact ⟨taken, htaken⟩
  · rintro ⟨taken, htaken⟩
    exact Success.bind_eq_ok.mpr ⟨_, htaken, rfl⟩

theorem shuffle_copy_eq_ok_iff :
    shuffle (.copy count under) stack = .ok stack' ↔
      ∃ block rest between rest', takeSlots count stack = .ok (block, rest) ∧
        takeSlots under rest = .ok (between, rest') ∧
          block ++ between ++ block ++ rest' = stack' := by
  constructor
  · intro h
    obtain ⟨⟨block, rest⟩, hblock, h⟩ := Success.bind_eq_ok.mp h
    obtain ⟨⟨between, rest'⟩, hbetween, h⟩ := Success.bind_eq_ok.mp h
    exact ⟨block, rest, between, rest', hblock, hbetween, Except.ok.inj h⟩
  · rintro ⟨block, rest, between, rest', hblock, hbetween, rfl⟩
    exact Success.bind_eq_ok.mpr ⟨_, hblock, Success.bind_eq_ok.mpr ⟨_, hbetween, rfl⟩⟩

theorem shuffle_swap_eq_ok_iff :
    shuffle .swap stack = .ok stack' ↔
      ∃ first rest second rest', takeSlots 1 stack = .ok (first, rest) ∧
        takeSlots 1 rest = .ok (second, rest') ∧ second ++ first ++ rest' = stack' := by
  constructor
  · intro h
    obtain ⟨⟨first, rest⟩, hfirst, h⟩ := Success.bind_eq_ok.mp h
    obtain ⟨⟨second, rest'⟩, hsecond, h⟩ := Success.bind_eq_ok.mp h
    exact ⟨first, rest, second, rest', hfirst, hsecond, Except.ok.inj h⟩
  · rintro ⟨first, rest, second, rest', hfirst, hsecond, rfl⟩
    exact Success.bind_eq_ok.mpr ⟨_, hfirst, Success.bind_eq_ok.mpr ⟨_, hsecond, rfl⟩⟩

/-- A move succeeds exactly if there are slots enough and it cuts no value. -/
theorem exists_shuffle_iff {move : Shuffle} :
    (∃ stack', shuffle move stack = .ok stack') ↔
      ∀ depth ∈ move.ends, StackSlot.IsBoundary (expand stack) depth := by
  cases move with
  | drop count =>
    rw [Shuffle.ends, List.forall_mem_singleton, ← exists_takeSlots_iff]
    simp only [shuffle_drop_eq_ok_iff]
    exact exists_comm
  | copy count under =>
    rw [Shuffle.ends, List.forall_mem_cons, List.forall_mem_singleton,
      ← exists_takeSlots_twice_iff count under]
    simp only [shuffle_copy_eq_ok_iff]
    constructor
    · rintro ⟨_, block, rest, between, rest', hblock, hbetween, -⟩
      exact ⟨block, rest, between, rest', hblock, hbetween⟩
    · rintro ⟨block, rest, between, rest', hblock, hbetween⟩
      exact ⟨_, block, rest, between, rest', hblock, hbetween, rfl⟩
  | swap =>
    rw [Shuffle.ends, List.forall_mem_cons, List.forall_mem_singleton,
      ← exists_takeSlots_twice_iff 1 1]
    simp only [shuffle_swap_eq_ok_iff]
    constructor
    · rintro ⟨_, first, rest, second, rest', hfirst, hsecond, -⟩
      exact ⟨first, rest, second, rest', hfirst, hsecond⟩
    · rintro ⟨first, rest, second, rest', hfirst, hsecond⟩
      exact ⟨_, first, rest, second, rest', hfirst, hsecond, rfl⟩

/-- A move does to the slots of the stack what it is to do. -/
theorem expand_shuffle {move : Shuffle} (h : shuffle move stack = .ok stack') :
    expand stack' = move.onSlots (expand stack) := by
  cases move with
  | drop count =>
    obtain ⟨taken, htaken⟩ := shuffle_drop_eq_ok_iff.mp h
    obtain ⟨rfl, hlength⟩ := takeSlots_eq_ok_iff.mp htaken
    rw [Shuffle.onSlots, expand_append, List.drop_left' hlength]
  | copy count under =>
    obtain ⟨block, rest, between, rest', hblock, hbetween, rfl⟩ := shuffle_copy_eq_ok_iff.mp h
    obtain ⟨rfl, hcount⟩ := takeSlots_eq_ok_iff.mp hblock
    obtain ⟨rfl, hunder⟩ := takeSlots_eq_ok_iff.mp hbetween
    have hboth : (expand block ++ expand between).length = count + under := by
      rw [List.length_append, hcount, hunder]
    simp only [Shuffle.onSlots, expand_append]
    rw [List.take_left' hcount, ← List.append_assoc (expand block) (expand between),
      List.take_left' hboth, List.drop_left' hboth]
  | swap =>
    obtain ⟨first, rest, second, rest', hfirst, hsecond, rfl⟩ := shuffle_swap_eq_ok_iff.mp h
    obtain ⟨rfl, hone⟩ := takeSlots_eq_ok_iff.mp hfirst
    obtain ⟨rfl, hother⟩ := takeSlots_eq_ok_iff.mp hsecond
    obtain ⟨slot, hslot⟩ := List.length_eq_one_iff.mp hone
    obtain ⟨slot', hslot'⟩ := List.length_eq_one_iff.mp hother
    simp only [expand_append, hslot, hslot']
    rfl

end OperandStack

/-! ## Instructions that move values -/

/-- The instructions that only move values, each with what it moves. -/
def Opcode.shuffles : List (Opcode × Shuffle) :=
  [(pop, .drop 1), (pop2, .drop 2), (dup, .copy 1 0), (dupX1, .copy 1 1), (dupX2, .copy 1 2),
    (dup2, .copy 2 0), (dup2X1, .copy 2 1), (dup2X2, .copy 2 2), (swap, .swap)]

theorem Opcode.exists_form_of_mem_shuffles {opcode : Opcode} {move : Shuffle}
    (h : (opcode, move) ∈ shuffles) :
    ∃ form : StackMove, opcode.action? = some (.shuffle form) ∧ form.slots = move := by
  have hall : ∀ entry ∈ shuffles,
      ∃ form : StackMove, action? entry.1 = some (.shuffle form) ∧ form.slots = entry.2 := by
    simp only [shuffles, List.forall_mem_cons]
    exact ⟨⟨.pop, rfl, rfl⟩, ⟨.pop2, rfl, rfl⟩, ⟨.dup, rfl, rfl⟩, ⟨.dupX1, rfl, rfl⟩,
      ⟨.dupX2, rfl, rfl⟩, ⟨.dup2, rfl, rfl⟩, ⟨.dup2X1, rfl, rfl⟩, ⟨.dup2X2, rfl, rfl⟩,
      ⟨.swap, rfl, rfl⟩, List.forall_mem_nil _⟩
  exact hall _ h

namespace MethodContext

open OperandStack

variable {ctx : MethodContext} {frame after : LiveFrame} {label : Label} {opcode : Opcode}
  {form : StackMove} {move : Shuffle}

theorem execute_eq_ok_iff_shuffle (h : opcode.action? = some (.shuffle form)) :
    ctx.execute frame label (.simple opcode) = .ok after ↔
      after.locals = frame.locals ∧ shuffle form.slots frame.stack = .ok after.stack := by
  rw [execute, ← move_eq_shuffle]
  simp only [h, SimpleAction.run]
  constructor
  · intro hexecute
    obtain ⟨stack, hstack, hexecute⟩ := Success.bind_eq_ok.mp hexecute
    cases hexecute
    exact ⟨rfl, hstack⟩
  · rintro ⟨hlocals, hstack⟩
    refine Success.bind_eq_ok.mpr ⟨after.stack, hstack, ?_⟩
    rw [← hlocals]
    rfl

/-- An instruction that moves values succeeds exactly if the stack has the slots that it needs and
no value is cut at the ends of what it moves. The slots that are left are those that the same move
leaves to a machine that only knows slots. -/
theorem execute_shuffle_slots (ctx : MethodContext) (frame : LiveFrame) (label : Label)
    (h : (opcode, move) ∈ Opcode.shuffles) :
    ((∃ after, ctx.execute frame label (.simple opcode) = .ok after) ↔
        ∀ depth ∈ move.ends, StackSlot.IsBoundary (expand frame.stack) depth) ∧
      ∀ after, ctx.execute frame label (.simple opcode) = .ok after →
        after.locals = frame.locals ∧ expand after.stack = move.onSlots (expand frame.stack) := by
  obtain ⟨form, haction, rfl⟩ := Opcode.exists_form_of_mem_shuffles h
  simp only [execute_eq_ok_iff_shuffle haction]
  refine ⟨exists_shuffle_iff.symm.trans ?_ |>.symm, ?_⟩
  · constructor
    · rintro ⟨stack, hstack⟩
      exact ⟨⟨frame.locals, stack⟩, rfl, hstack⟩
    · rintro ⟨after, -, hstack⟩
      exact ⟨after.stack, hstack⟩
  · rintro after ⟨hlocals, hstack⟩
    exact ⟨hlocals, expand_shuffle hstack⟩

/-- A value of width two is copied below two others of width one; it cannot be dropped in half. -/
theorem execute_shuffle_slots_mixed :
    (Opcode.dup2X2, .copy 2 2) ∈ Opcode.shuffles ∧ (Opcode.pop, .drop 1) ∈ Opcode.shuffles ∧
      MethodContext.execute ⟨.empty, "A", #[]⟩ ⟨[], [.long, .integer, .null, .double]⟩ 0
          (.simple Opcode.dup2X2) = .ok ⟨[], [.long, .integer, .null, .long, .double]⟩ ∧
        expand [.long, .integer, .null, .long, .double] =
          Shuffle.onSlots (.copy 2 2) (expand [.long, .integer, .null, .double]) ∧
      ¬∃ after, MethodContext.execute ⟨.empty, "A", #[]⟩ ⟨[], [.long, .integer]⟩ 0
        (.simple Opcode.pop) = .ok after := by
  have hcopy : (Opcode.dup2X2, Shuffle.copy 2 2) ∈ Opcode.shuffles := by decide
  have hdrop : (Opcode.pop, Shuffle.drop 1) ∈ Opcode.shuffles := by decide
  have hrun : MethodContext.execute ⟨.empty, "A", #[]⟩ ⟨[], [.long, .integer, .null, .double]⟩ 0
      (.simple Opcode.dup2X2) = .ok ⟨[], [.long, .integer, .null, .long, .double]⟩ := by
    decide +kernel
  refine ⟨hcopy, hdrop, hrun, ((execute_shuffle_slots _ _ 0 hcopy).2 _ hrun).2, fun hpop => ?_⟩
  have hend := (execute_shuffle_slots _ _ 0 hdrop).1.mp hpop 1 List.mem_cons_self
  exact hend.2 .long rfl

end MethodContext

end ClassText
