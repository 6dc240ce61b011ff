import ClassText.Frame.Stack
import ClassText.Proofs.Success

/-!
# Moves told in slots

The forms of an instruction that moves values differ in how its slots are filled,
not in what is done with them. `OperandStack.takeSlots` takes so many slots off
the stack, whatever values they make up, and with it each instruction is one
program (`OperandStack.shuffle`). All its forms come down to that program, the
faults included (`OperandStack.move_eq_shuffle`), so what is proved of moves is
proved of three programs in place of sixteen forms.
-/

namespace ClassText

/-- What a move does, in slots. -/
inductive Shuffle where
  | drop (count : Nat)
  /-- Put a copy of the topmost slots below the slots that follow them. -/
  | copy (count under : Nat)
  | swap
deriving DecidableEq, Repr

def StackMove.slots : StackMove → Shuffle
  | pop => .drop 1
  | pop2 => .drop 2
  | dup => .copy 1 0
  | dupX1 => .copy 1 1
  | dupX2 => .copy 1 2
  | dup2 => .copy 2 0
  | dup2X1 => .copy 2 1
  | dup2X2 => .copy 2 2
  | swap => .swap

namespace OperandStack

/-- The values in the topmost slots, and what is below them. -/
def takeSlots : Nat → OperandStack → Except FrameFault (OperandStack × OperandStack)
  | 0, stack => .ok ([], stack)
  | _ + 1, [] => .error .emptyStack
  | count + 1, t :: rest =>
    if count + 1 < t.width then .error (.wrongWidth t.width)
    else do
      let (taken, rest) ← takeSlots (count + 1 - t.width) rest
      return (t :: taken, rest)

def shuffle : Shuffle → OperandStack → Except FrameFault OperandStack
  | .drop count, stack => do
    let (_, rest) ← takeSlots count stack
    return rest
  | .copy count under, stack => do
    let (block, rest) ← takeSlots count stack
    let (between, rest) ← takeSlots under rest
    return block ++ between ++ block ++ rest
  | .swap, stack => do
    let (first, rest) ← takeSlots 1 stack
    let (second, rest) ← takeSlots 1 rest
    return second ++ first ++ rest

theorem takeSlots_eq_ok :
    ∀ {count : Nat} {stack taken rest : OperandStack}, takeSlots count stack = .ok (taken, rest) →
      stack = taken ++ rest
  | 0, _, _, _, h => by
    rw [takeSlots] at h
    cases h
    rfl
  | _ + 1, [], _, _, h => by
    rw [takeSlots] at h
    cases h
  | count + 1, t :: stack, taken, rest, h => by
    rw [takeSlots] at h
    split at h
    · cases h
    · obtain ⟨⟨others, below⟩, hothers, h⟩ := Success.bind_eq_ok.mp h
      cases h
      rw [takeSlots_eq_ok hothers, List.cons_append]

/-- Values are only moved. -/
theorem mem_of_mem_shuffle {move : Shuffle} {stack stack' : OperandStack}
    (h : shuffle move stack = .ok stack') : ∀ t ∈ stack', t ∈ stack := by
  cases move with
  | drop count =>
    obtain ⟨⟨taken, rest⟩, htaken, h⟩ := Success.bind_eq_ok.mp h
    cases h
    rw [takeSlots_eq_ok htaken]
    exact fun t ht => List.mem_append_right _ ht
  | copy count under =>
    obtain ⟨⟨block, rest⟩, hblock, h⟩ := Success.bind_eq_ok.mp h
    obtain ⟨⟨between, rest'⟩, hbetween, h⟩ := Success.bind_eq_ok.mp h
    cases h
    rw [takeSlots_eq_ok hblock, takeSlots_eq_ok hbetween]
    intro t ht
    simp only [List.mem_append] at ht ⊢
    tauto
  | swap =>
    obtain ⟨⟨first, rest⟩, hfirst, h⟩ := Success.bind_eq_ok.mp h
    obtain ⟨⟨second, rest'⟩, hsecond, h⟩ := Success.bind_eq_ok.mp h
    cases h
    rw [takeSlots_eq_ok hfirst, takeSlots_eq_ok hsecond]
    intro t ht
    simp only [List.mem_append] at ht ⊢
    tauto

/-! ## One or two slots -/

theorem takeSlots_zero (stack : OperandStack) : takeSlots 0 stack = pure ([], stack) := by
  rw [takeSlots]
  rfl

/-- One slot is a value of width one. -/
theorem takeSlots_one (stack : OperandStack) :
    takeSlots 1 stack = do
      let (first, rest) ← popWidth 1 stack
      return ([first], rest) := by
  cases stack with
  | nil =>
    rw [takeSlots]
    rfl
  | cons t rest =>
    have hpos := t.width_pos
    have hpop : popWidth 1 (t :: rest) =
        if t.width = 1 then pure (t, rest) else throw (.wrongWidth t.width) := rfl
    rw [takeSlots, hpop]
    by_cases ht : t.width = 1
    · simp only [ht, Nat.lt_irrefl, if_false, if_true, Nat.reduceAdd, Nat.sub_self,
        takeSlots_zero, pure_bind]
    · rw [if_neg ht, if_pos (by omega)]
      rfl

/-- Two slots are two values of width one, or one of width two. -/
theorem takeSlots_two (stack : OperandStack) :
    takeSlots 2 stack = do
      let (first, rest) ← pop stack
      match first.width with
      | 1 => do
        let (second, rest) ← popWidth 1 rest
        return ([first, second], rest)
      | _ => return ([first], rest) := by
  cases stack with
  | nil =>
    rw [takeSlots]
    rfl
  | cons t rest =>
    have hpos := t.width_pos
    have hle := t.width_le_two
    have hpop : pop (t :: rest) = pure (t, rest) := rfl
    rw [takeSlots, if_neg (by omega), hpop, pure_bind]
    by_cases ht : t.width = 1
    · simp only [ht, Nat.reduceAdd, Nat.reduceSub, takeSlots_one, bind_assoc, pure_bind]
    · have hwide : t.width = 2 := by omega
      simp only [hwide, Nat.reduceAdd, Nat.sub_self, takeSlots_zero, pure_bind]

/-! ## The forms of each instruction -/

theorem width_eq_one_or_two (t : LiveType) : t.width = 1 ∨ t.width = 2 := by
  have hpos := t.width_pos
  have hle := t.width_le_two
  omega

/-- Each form of an instruction does with its values what the instruction does with its slots. -/
theorem move_eq_shuffle (form : StackMove) (stack : OperandStack) :
    move form stack = shuffle form.slots stack := by
  cases form with
  | pop => simp only [move, StackMove.slots, shuffle, takeSlots_one, bind_assoc, pure_bind]
  | pop2 =>
    simp only [move, StackMove.slots, shuffle, takeSlots_two, bind_assoc]
    refine bind_congr fun first => ?_
    rcases width_eq_one_or_two first.1 with hone | htwo
    · simp only [hone, bind_assoc, pure_bind]
    · simp only [htwo, pure_bind]
  | dup =>
    simp only [move, StackMove.slots, shuffle, takeSlots_one, takeSlots_zero, bind_assoc,
      pure_bind, List.cons_append, List.nil_append]
  | dupX1 | swap =>
    simp only [move, StackMove.slots, shuffle, takeSlots_one, bind_assoc, pure_bind,
      List.cons_append, List.nil_append]
  | dupX2 =>
    simp only [move, StackMove.slots, shuffle, takeSlots_one, takeSlots_two, bind_assoc,
      pure_bind, List.cons_append, List.nil_append]
    refine bind_congr fun first => bind_congr fun second => ?_
    rcases width_eq_one_or_two second.1 with hone | htwo
    · simp only [hone, bind_assoc, pure_bind, List.cons_append, List.nil_append]
    · simp only [htwo, pure_bind, List.cons_append, List.nil_append]
  | dup2 =>
    simp only [move, StackMove.slots, shuffle, takeSlots_two, takeSlots_zero, bind_assoc,
      pure_bind, List.append_nil]
    refine bind_congr fun first => ?_
    rcases width_eq_one_or_two first.1 with hone | htwo
    · simp only [hone, bind_assoc, pure_bind, List.cons_append, List.nil_append]
    · simp only [htwo, pure_bind, List.cons_append, List.nil_append]
  | dup2X1 =>
    simp only [move, StackMove.slots, shuffle, takeSlots_one, takeSlots_two, bind_assoc,
      pure_bind]
    refine bind_congr fun first => ?_
    rcases width_eq_one_or_two first.1 with hone | htwo
    · simp only [hone, bind_assoc, pure_bind, List.cons_append, List.nil_append]
    · simp only [htwo, pure_bind, List.cons_append, List.nil_append]
  | dup2X2 =>
    simp only [move, StackMove.slots, shuffle, takeSlots_two, bind_assoc]
    refine bind_congr fun first => ?_
    rcases width_eq_one_or_two first.1 with hone | htwo
    · simp only [hone, bind_assoc, pure_bind]
      refine bind_congr fun second => bind_congr fun third => ?_
      rcases width_eq_one_or_two third.1 with hthird | hthird
      · simp only [hthird, bind_assoc, pure_bind, List.cons_append, List.nil_append]
      · simp only [hthird, pure_bind, List.cons_append, List.nil_append]
    · simp only [htwo, pure_bind]
      refine bind_congr fun second => ?_
      rcases width_eq_one_or_two second.1 with hsecond | hsecond
      · simp only [hsecond, bind_assoc, pure_bind, List.cons_append, List.nil_append]
      · simp only [hsecond, pure_bind, List.cons_append, List.nil_append]

theorem mem_of_mem_move {form : StackMove} {stack stack' : OperandStack}
    (h : move form stack = .ok stack') : ∀ t ∈ stack', t ∈ stack :=
  mem_of_mem_shuffle ((move_eq_shuffle form stack).symm.trans h)

end OperandStack

end ClassText
