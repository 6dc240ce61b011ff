import ClassText.Proofs.Frame.Order
import ClassText.Proofs.Hierarchy.Height
import ClassText.Proofs.Hierarchy.Widening
import Mathlib.Algebra.Order.Monoid.Prod
import Mathlib.Algebra.Order.Ring.Nat

/-!
# Merging makes frames lighter

Where the hierarchy knows an answer, merging goes to a type that is less high.
Where it does not, merging goes to a fallback: the type that was recorded, or
`java/lang/Throwable`. A slot that holds the fallback may then go on to a common
type above it. Should a gap send it back from there, it would move in a circle,
and some slots do. The way up from a fallback is clear (`Hierarchy.IsClearAbove`)
if no gap is met on it; then a slot that has come to its fallback never comes
back to it.

So a type weighs as much as it is high if it lies on the way up from the
fallback, and more than the fallback if it does not; null is heavier than all of
them, since it can become any type. Merging makes a frame lighter or leaves it
as it is (`Ancestry.mergeFrames_lt`).
-/

namespace ClassText

/-! ## Weights -/

namespace Ancestry

variable (a : Ancestry) (scope : String → Prop)

/-- The type lies on the way up from the fallback, or it is the root. -/
def OnWay (type s : RefType) : Prop :=
  s = .object ClassName.object ∨ Relation.ReflTransGen (a.hierarchy.Widens scope) type s

open Classical in
/-- How high a type is, and all of the way of the fallback in addition unless the type lies on
it. -/
noncomputable def refWeight (type s : RefType) : Nat :=
  if a.OnWay scope type s then a.hierarchy.refHeight s
  else a.hierarchy.refHeight type + 1 + a.hierarchy.refHeight s

open Classical in
noncomputable def typeWeight (recorded : Option LiveType) : LiveType → ℕ ×ₗ ℕ
  | .null => toLex (1, 0)
  | .object s => toLex (0, 1 + a.refWeight scope (fallback recorded) s)
  | .top => toLex (0, 0)
  | _ => toLex (0, 1)

/-- The weight of types, given those recorded. -/
noncomputable def weigh : List LiveType → List LiveType → ℕ ×ₗ ℕ
  | [], _ => 0
  | t :: types, recorded =>
    a.typeWeight scope recorded.head? t + weigh types recorded.tail

variable {a scope}

theorem mergeReferences_cases (s t : RefType) (recorded : Option LiveType) :
    a.hierarchy.commonRefType? s t = some (a.mergeReferences s t recorded) ∨
      a.hierarchy.commonRefType? s t = none ∧
        (a.mergeReferences s t recorded = fallback recorded ∨
          a.mergeReferences s t recorded = .object ClassName.object) := by
  unfold mergeReferences
  split
  · next hcommon => exact .inl hcommon
  · next hnone =>
    refine .inr ⟨hnone, ?_⟩
    split
    · exact .inl rfl
    · next hrecorded =>
      have hfallback : fallback recorded = .object ClassName.throwable := by
        unfold fallback
        split
        · next type => exact absurd rfl (hrecorded type)
        · rfl
      rw [hfallback]
      split
      · exact .inl rfl
      · exact .inr rfl

theorem refWeight_object (type : RefType) :
    a.refWeight scope type (.object ClassName.object) = 0 := by
  rw [refWeight, if_pos (.inl rfl)]
  exact Hierarchy.height_object

theorem refWeight_lt {s t : RefType} {recorded : Option LiveType}
    (hclear : a.hierarchy.IsClearAbove scope (fallback recorded))
    (ht : ∀ name, t.name? = some name → scope name)
    (hne : a.mergeReferences s t recorded ≠ s) :
    a.refWeight scope (fallback recorded) (a.mergeReferences s t recorded) <
      a.refWeight scope (fallback recorded) s := by
  rcases mergeReferences_cases s t recorded with hcommon | ⟨hnone, hfallback⟩
  · -- The answer is known, and on the way up if the first type is.
    have hlt := Hierarchy.refHeight_lt hcommon hne
    by_cases hs : a.OnWay scope (fallback recorded) s
    · have hway : a.OnWay scope (fallback recorded) (a.mergeReferences s t recorded) := by
        rcases hs with rfl | hs
        · have hheight : a.hierarchy.refHeight (.object ClassName.object) = 0 :=
            Hierarchy.height_object
          omega
        · exact .inr (hs.tail ⟨t, ht, hcommon⟩)
      rwa [refWeight, refWeight, if_pos hway, if_pos hs]
    · rw [refWeight, refWeight, if_neg hs]
      split <;> omega
  · -- A gap hides the answer. That does not happen above the fallback.
    have hs : ¬a.OnWay scope (fallback recorded) s ∨ s = fallback recorded := by
      by_contra hcon
      rw [not_or, not_not] at hcon
      obtain ⟨hway | hway, hother⟩ := hcon
      · have hopen := Hierarchy.isSome_commonRefType? (h := a.hierarchy) (s := s) (t := t)
          fun name hname => .inl (Option.some.inj ((hway ▸ hname).symm))
        rw [hnone] at hopen
        cases hopen
      · have hopen := hclear s hway hother t ht
        rw [hnone] at hopen
        cases hopen
    have hself : a.OnWay scope (fallback recorded) (fallback recorded) := .inr .refl
    rcases hfallback with heq | heq
    · have hoff : ¬a.OnWay scope (fallback recorded) s :=
        hs.resolve_right fun hself => hne (heq.trans hself.symm)
      rw [heq, refWeight, refWeight, if_pos hself, if_neg hoff]
      omega
    · rw [heq, refWeight_object]
      rcases hs with hoff | rfl
      · rw [refWeight, if_neg hoff]
        omega
      · rw [refWeight, if_pos hself]
        exact Hierarchy.refHeight_pos fun hobject => hne (heq.trans hobject.symm)

/-- Merging makes a type lighter or leaves it as it is. -/
theorem merge_lt {t u : LiveType} {recorded : Option LiveType}
    (hclear : a.hierarchy.IsClearAbove scope (fallback recorded)) (hu : LiveType.Fits scope u)
    (hne : a.merge t u recorded ≠ t) :
    a.typeWeight scope recorded (a.merge t u recorded) < a.typeWeight scope recorded t := by
  unfold merge at hne ⊢
  split at hne
  · exact absurd rfl hne
  next hdifferent =>
  rw [if_neg hdifferent]
  split at hne
  · exact Prod.Lex.toLex_lt_toLex.mpr (.inl Nat.zero_lt_one)
  · exact absurd rfl hne
  · next s t =>
    have hlt := refWeight_lt hclear hu fun heq => hne (congrArg _ heq)
    exact Prod.Lex.toLex_lt_toLex.mpr (.inr ⟨rfl, Nat.add_lt_add_left hlt 1⟩)
  · cases t with
    | top => exact absurd rfl hne
    | null => exact Prod.Lex.toLex_lt_toLex.mpr (.inl Nat.zero_lt_one)
    | object s => exact Prod.Lex.toLex_lt_toLex.mpr (.inr ⟨rfl, Nat.lt_add_right _ Nat.zero_lt_one⟩)
    | _ => exact Prod.Lex.toLex_lt_toLex.mpr (.inr ⟨rfl, Nat.zero_lt_one⟩)

/-! ## Frames -/

theorem mergeAll_lt : ∀ (types : List LiveType) {others recorded : List LiveType},
    (∀ t ∈ others, LiveType.Fits scope t) →
      (∀ type, type = .object ClassName.throwable ∨ .object type ∈ recorded →
        a.hierarchy.IsClearAbove scope type) →
        a.mergeAll types others recorded = types ∨
          a.weigh scope (a.mergeAll types others recorded) recorded < a.weigh scope types recorded
  | [], _, _, _, _ => .inl (mergeAll_nil ..)
  | _ :: _, [], _, _, _ => .inl (mergeAll_nil_right ..)
  | t :: types, u :: others, recorded, hothers, hclear => by
    obtain ⟨hu, hothers⟩ := List.forall_mem_cons.mp hothers
    have hhead : a.hierarchy.IsClearAbove scope (fallback recorded.head?) :=
      hclear _ (fallback_head? recorded)
    have htail := mergeAll_lt types hothers
      fun type htype => hclear type (htype.imp_right List.mem_of_mem_tail)
    rw [mergeAll_cons, weigh, weigh, List.cons.injEq]
    by_cases heq : a.merge t u recorded.head? = t
    · rw [heq]
      exact htail.imp (fun heq => ⟨rfl, heq⟩) fun hlt => add_lt_add_right hlt _
    · right
      have hlt := merge_lt hhead hu heq
      rcases htail with heq | hlt'
      · rw [heq]
        exact add_lt_add_left hlt _
      · exact add_lt_add hlt hlt'

noncomputable def frameWeight (a : Ancestry) (scope : String → Prop) (recorded : Option LiveFrame)
    (frame : LiveFrame) : ℕ ×ₗ ℕ :=
  a.weigh scope frame.locals (recordedLocals recorded) +
    a.weigh scope frame.stack (recordedStack recorded frame.stack.length)

/-- Merging makes a frame lighter or leaves it as it is. -/
theorem mergeFrames_lt {frame incoming merged : LiveFrame} {recorded : Option LiveFrame}
    {slots : Nat} (hincoming : incoming.Fits scope slots)
    (hclear : ∀ type, FallsBack recorded type → a.hierarchy.IsClearAbove scope type)
    (h : a.mergeFrames frame incoming recorded = .ok merged) :
    merged = frame ∨
      a.frameWeight scope recorded merged < a.frameWeight scope recorded frame := by
  obtain ⟨-, rfl, -⟩ := mergeFrames_eq_ok h
  have hlocals := mergeAll_lt frame.locals hincoming.locals
    fun type htype => hclear type (fallsBack_of_mem_locals recorded htype)
  have hstack := mergeAll_lt frame.stack hincoming.stack
    fun type htype => hclear type (fallsBack_of_mem_stack recorded frame.stack.length htype)
  rw [frameWeight, frameWeight, length_mergeAll]
  rcases hlocals with heq | hlt
  · rw [heq]
    rcases hstack with heq' | hlt'
    · left
      rw [heq']
    · exact .inr (add_lt_add_right hlt' _)
  · right
    rcases hstack with heq' | hlt'
    · rw [heq']
      exact add_lt_add_left hlt _
    · exact add_lt_add hlt hlt'

/-! ## Merged frames stay in scope -/

variable {names : String → Prop}

theorem mergeReferences_fits {s t : RefType} {recorded : Option LiveType}
    (hs : ∀ name, s.name? = some name → a.hierarchy.InScope names name)
    (hrecorded : ∀ name, (fallback recorded).name? = some name → a.hierarchy.InScope names name) :
    ∀ name, (a.mergeReferences s t recorded).name? = some name →
      a.hierarchy.InScope names name := by
  intro name hname
  rcases mergeReferences_cases s t recorded with hcommon | ⟨-, heq | heq⟩
  · rcases Hierarchy.commonRefType?_above hcommon hname with hroot | ⟨c, hc, rfl | ⟨hne, habove⟩⟩
    · exact .inl hroot
    · exact hs c hc
    · exact (hs c hc).above hne habove
  · exact hrecorded name (heq ▸ hname)
  · rw [heq] at hname
    exact .inl (Option.some.inj hname).symm

theorem merge_fits {t u : LiveType} {recorded : Option LiveType}
    (ht : LiveType.Fits (a.hierarchy.InScope names) t)
    (hu : LiveType.Fits (a.hierarchy.InScope names) u)
    (hrecorded : ∀ name, (fallback recorded).name? = some name → a.hierarchy.InScope names name) :
    LiveType.Fits (a.hierarchy.InScope names) (a.merge t u recorded) := by
  unfold merge
  split
  · exact ht
  split
  · exact hu
  · exact ht
  · exact mergeReferences_fits ht hrecorded
  · exact fun _ hname => nomatch hname

theorem mergeFrames_fits {slots : Nat} {frame incoming merged : LiveFrame}
    {recorded : Option LiveFrame} (hframe : frame.Fits (a.hierarchy.InScope names) slots)
    (hincoming : incoming.Fits (a.hierarchy.InScope names) slots)
    (hrecorded : ∀ type, FallsBack recorded type →
      ∀ name, type.name? = some name → a.hierarchy.InScope names name)
    (h : a.mergeFrames frame incoming recorded = .ok merged) :
    merged.Fits (a.hierarchy.InScope names) slots :=
  mergeFrames_holds _ merge_fits hframe hincoming hrecorded h

end Ancestry

end ClassText
