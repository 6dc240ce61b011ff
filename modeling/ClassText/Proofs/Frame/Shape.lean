import ClassText.Frame
import Mathlib.Data.List.TakeWhile

/-!
# The shape of frames

Variables that are spread out hold `top` after each value of width two. From
such variables, packing takes nothing that spreading does not put back, but for
the unusable variables at the end (`VerificationType.exists_spread_pack`).

The frames of a method all have as many slots for variables, and these are
spread out. Most of what holds of frames holds of each of their types
(`LiveFrame.Holds`).
-/

namespace ClassText

namespace VerificationType

variable {κ υ : Type}

/-- Whatever has width two is followed by its second slot. -/
def IsSpread (types : List (VerificationType κ υ)) : Prop :=
  ∀ i t, types[i]? = some t → t.width = 2 → types[i + 1]? = some top

theorem isSpread_cons {t : VerificationType κ υ} {types : List (VerificationType κ υ)} :
    IsSpread (t :: types) ↔ (t.width = 2 → types.head? = some top) ∧ IsSpread types := by
  constructor
  · intro h
    refine ⟨fun hwide => ?_, fun i u hu => h (i + 1) u hu⟩
    rw [List.head?_eq_getElem?]
    exact h 0 t rfl hwide
  · rintro ⟨hhead, htail⟩ i u hu hwide
    cases i with
    | zero =>
      obtain rfl : t = u := Option.some.inj hu
      exact List.head?_eq_getElem?.symm.trans (hhead hwide)
    | succ i => exact htail i u hu hwide

theorem isSpread_of_forall {types : List (VerificationType κ υ)}
    (h : ∀ t ∈ types, t.width = 1) : IsSpread types := by
  intro i t ht hwide
  have hnarrow := h t (List.mem_of_getElem? ht)
  omega

theorem IsSpread.append {types others : List (VerificationType κ υ)} (h : IsSpread types)
    (h' : IsSpread others) : IsSpread (types ++ others) := by
  induction types with
  | nil => exact h'
  | cons t types ih =>
    obtain ⟨hhead, htail⟩ := isSpread_cons.mp h
    refine isSpread_cons.mpr ⟨fun hwide => ?_, ih htail⟩
    exact List.head?_append.trans (by rw [hhead hwide, Option.some_or])

theorem isSpread_spread (types : List (VerificationType κ υ)) : IsSpread (spread types) := by
  induction types with
  | nil => exact isSpread_of_forall (List.forall_mem_nil _)
  | cons t types ih =>
    rw [spread, List.flatMap_cons]
    refine IsSpread.append ?_ ih
    split
    · exact isSpread_cons.mpr ⟨fun _ => rfl, isSpread_of_forall (by simp [width])⟩
    · next hnarrow =>
      refine isSpread_cons.mpr ⟨fun hwide => absurd hwide hnarrow, ?_⟩
      exact isSpread_of_forall (List.forall_mem_nil _)

theorem isSpread_replicate (count : Nat) :
    IsSpread (List.replicate count (top : VerificationType κ υ)) :=
  isSpread_of_forall fun _ ht => (List.eq_of_mem_replicate ht) ▸ rfl

theorem spread_cons (t : VerificationType κ υ) (types : List (VerificationType κ υ)) :
    spread (t :: types) = (if t.width = 2 then [t, top] else [t]) ++ spread types :=
  List.flatMap_cons

theorem mem_spread {types : List (VerificationType κ υ)}
    {t : VerificationType κ υ} (h : t ∈ spread types) : t ∈ types ∨ t = top := by
  obtain ⟨u, hu, ht⟩ := List.mem_flatMap.mp h
  split at ht
  · rcases List.mem_cons.mp ht with rfl | ht
    · exact .inl hu
    · exact .inr (List.mem_singleton.mp ht)
  · exact .inl (List.mem_singleton.mp ht ▸ hu)

theorem spread_append (types others : List (VerificationType κ υ)) :
    spread (types ++ others) = spread types ++ spread others :=
  List.flatMap_append

theorem spread_replicate (count : Nat) :
    spread (List.replicate count (top : VerificationType κ υ)) = List.replicate count top := by
  induction count with
  | zero => rfl
  | succ count ih =>
    rw [List.replicate_succ, spread_cons, ih]
    rfl

/-- Joining loses only second slots. -/
theorem spread_join :
    ∀ {types : List (VerificationType κ υ)}, IsSpread types → spread (join types) = types
  | [], _ => rfl
  | [t], h => by
    have hnarrow : ¬t.width = 2 := fun hwide => nomatch (isSpread_cons.mp h).1 hwide
    rw [join, spread_cons, if_neg hnarrow]
    rfl
  | t :: second :: rest, h => by
    obtain ⟨hhead, htail⟩ := isSpread_cons.mp h
    rw [join]
    split
    · next hwide =>
      obtain rfl : second = top := Option.some.inj (hhead hwide)
      rw [spread_cons, if_pos hwide, spread_join (isSpread_cons.mp htail).2]
      rfl
    · next hnarrow =>
      rw [spread_cons, if_neg hnarrow, spread_join htail]
      rfl

theorem join_sublist : ∀ types : List (VerificationType κ υ), (join types).Sublist types
  | [] => .slnil
  | [_] => .refl _
  | t :: second :: rest => by
    rw [join]
    split
    · exact ((join_sublist rest).cons second).cons_cons t
    · exact (join_sublist (second :: rest)).cons_cons t

variable [DecidableEq κ] [DecidableEq υ]

theorem pack_sublist (types : List (VerificationType κ υ)) : (pack types).Sublist types := by
  have htrim := ((List.dropWhile_sublist (· == top)).reverse :
    (trim (join types)).Sublist (join types).reverse.reverse)
  rw [List.reverse_reverse] at htrim
  exact htrim.trans (join_sublist types)

/-- Trimming loses only unusable places at the end. -/
theorem exists_trim (types : List (VerificationType κ υ)) :
    ∃ count, types = trim types ++ List.replicate count top := by
  refine ⟨(types.reverse.takeWhile (· == top)).length, ?_⟩
  have htops : (types.reverse.takeWhile (· == top)).reverse =
      List.replicate (types.reverse.takeWhile (· == top)).length top := by
    refine List.eq_replicate_iff.mpr ⟨List.length_reverse, fun t ht => ?_⟩
    have htop := List.mem_takeWhile_imp (List.mem_reverse.mp ht)
    exact eq_of_beq htop
  rw [← htops, trim, ← List.reverse_append, List.takeWhile_append_dropWhile, List.reverse_reverse]

theorem exists_spread_pack {types : List (VerificationType κ υ)} (h : IsSpread types) :
    ∃ count, types = spread (pack types) ++ List.replicate count top := by
  obtain ⟨count, hcount⟩ := exists_trim (join types)
  refine ⟨count, ?_⟩
  have hspread := spread_join h
  rw [hcount, spread_append, spread_replicate] at hspread
  exact hspread.symm

end VerificationType

/-- A frame with so many slots for variables, spread out, and all types with a property. -/
structure LiveFrame.Holds (good : LiveType → Prop) (slots : Nat) (frame : LiveFrame) : Prop where
  slots : frame.locals.length = slots
  spread : VerificationType.IsSpread frame.locals
  locals : ∀ t ∈ frame.locals, good t
  stack : ∀ t ∈ frame.stack, good t

end ClassText
