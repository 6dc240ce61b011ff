import ClassText.Name
import Mathlib.Tactic.Common

/-!
# Valid names

A valid name is one or more segments between slashes, none of them empty,
without a character that would end a name or begin something else
(`ClassName.isValid_iff`).
-/

namespace ClassText

namespace ClassName

/-- A segment that a name may be made of. -/
def IsSegment (segment : List Char) : Prop :=
  segment ≠ [] ∧ ∀ c ∈ segment, isIllegal c = false

/-- The segments have no problem. A scan that is inside the first one has met a character of it
already, so what is left of it may be empty. -/
def AreSegments (fresh : Bool) : List (List Char) → Prop
  | [] => False
  | first :: rest =>
    (fresh = true → first ≠ []) ∧ (∀ c ∈ first, isIllegal c = false) ∧
      ∀ segment ∈ rest, IsSegment segment

theorem isIllegal_eq_false_iff {c : Char} :
    isIllegal c = false ↔ c ≠ '.' ∧ c ≠ ';' ∧ c ≠ '[' := by
  simp [isIllegal, and_assoc]

theorem areSegments_nil_cons {fresh : Bool} {rest : List (List Char)} :
    AreSegments fresh ([] :: rest) ↔ fresh = false ∧ ∀ segment ∈ rest, IsSegment segment := by
  simp [AreSegments]

theorem areSegments_true_iff :
    ∀ {segments : List (List Char)}, segments ≠ [] →
      (AreSegments true segments ↔ ∀ segment ∈ segments, IsSegment segment)
  | [], h => absurd rfl h
  | _ :: _, _ => by simp [AreSegments, IsSegment, and_assoc]

/-- A character that goes in front of the first segment only has to be legal. -/
theorem areSegments_modifyHead_cons {c : Char} {fresh : Bool} :
    ∀ {segments : List (List Char)}, segments ≠ [] →
      (AreSegments fresh (segments.modifyHead (c :: ·)) ↔
        isIllegal c = false ∧ AreSegments false segments)
  | [], h => absurd rfl h
  | _ :: _, _ => by simp [AreSegments, and_assoc]

theorem firstProblem?_eq_none_iff :
    ∀ {cs : List Char} {fresh : Bool},
      firstProblem? fresh cs = none ↔ AreSegments fresh (cs.splitOn '/')
  | [], fresh => by
    rw [List.splitOn_nil, areSegments_nil_cons, firstProblem?]
    cases fresh <;> simp
  | c :: cs, fresh => by
    have hne := List.splitOn_ne_nil '/' cs
    rw [List.splitOn_cons_eq_if_modifyHead, firstProblem?]
    by_cases hslash : c = '/'
    · rw [if_pos hslash, if_pos (beq_iff_eq.mpr hslash), areSegments_nil_cons,
        ← areSegments_true_iff hne, ← firstProblem?_eq_none_iff]
      cases fresh <;> simp
    · rw [if_neg hslash, if_neg (mt beq_iff_eq.mp hslash), areSegments_modifyHead_cons hne,
        ← firstProblem?_eq_none_iff]
      cases isIllegal c <;> simp

/-- A name is valid if it is made of segments between slashes that are not empty and hold no
illegal character. -/
theorem isValid_iff {name : String} : isValid name = true ↔
    ∀ segment ∈ name.toList.splitOn '/',
      segment ≠ [] ∧ ∀ c ∈ segment, c ≠ '.' ∧ c ≠ ';' ∧ c ≠ '[' := by
  simp only [← isIllegal_eq_false_iff]
  rw [isValid, Option.isNone_iff_eq_none, problem?]
  by_cases hempty : name.isEmpty
  · rw [if_pos hempty, String.isEmpty_iff.mp hempty]
    exact ⟨fun h => absurd h (Option.some_ne_none _),
      fun h => absurd rfl (h [] (List.mem_singleton_self [])).1⟩
  · rw [if_neg hempty, firstProblem?_eq_none_iff]
    exact areSegments_true_iff (List.splitOn_ne_nil '/' name.toList)

/-- No character of a valid name ends a name or begins something else. -/
theorem not_isIllegal {name : String} (h : isValid name = true) :
    ∀ c ∈ name.toList, isIllegal c = false := by
  intro c hc
  have hjoined : ['/'].intercalate (name.toList.splitOn '/') = name.toList :=
    List.intercalate_splitOn '/'
  rw [← hjoined, List.intercalate] at hc
  obtain ⟨piece, hmem, hc⟩ := List.mem_flatten.mp hc
  obtain ⟨i, hi, rfl⟩ := List.getElem_of_mem hmem
  rw [List.getElem_intersperse] at hc
  split at hc
  · exact isIllegal_eq_false_iff.mpr ((isValid_iff.mp h _ (List.getElem_mem _)).2 c hc)
  · rw [List.mem_singleton.mp hc]
    rfl

theorem check_eq_ok {text name : String} :
    check text = .ok name ↔ text = name ∧ isValid name = true := by
  unfold check isValid
  cases h : problem? text with
  | none =>
    rw [Except.ok.injEq]
    exact ⟨fun heq => ⟨heq, by rw [← heq, h]; rfl⟩, And.left⟩
  | some problem =>
    refine ⟨nofun, ?_⟩
    rintro ⟨rfl, hvalid⟩
    rw [h] at hvalid
    cases hvalid

end ClassName

end ClassText
