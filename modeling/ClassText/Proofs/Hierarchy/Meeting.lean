import ClassText.Proofs.Hierarchy.Chain

/-!
# How classes meet

What two classes have in common is looked for in several ways, one after the other,
and each of them is tried only if those before it have failed. So an answer is found
in one of the ways of `Meets`, which say both what was found and what was not.

The last way goes up from both classes. If there are classes that both inherit
from, the closest of them is found, for on a chain the first one is followed by
all others (`IsShared`). If there is none, that is an answer only where no gap is met
(`AreApart`); otherwise the answer is missing, and nowhere else (`IsHidden`).
-/

namespace ClassText.Hierarchy

variable {h : Hierarchy} {a b c : String}

/-- Both classes inherit from the third one, and that one from all else that both inherit from. -/
structure IsShared (h : Hierarchy) (a b c : String) : Prop where
  left : h.Inherits a c
  right : h.Inherits b c
  closest : ∀ {d : String}, h.Inherits a d → h.Inherits b d → h.Inherits c d

/-- All superclasses of the two classes are known, and none of one is a superclass of the other. -/
structure AreApart (h : Hierarchy) (a b : String) : Prop where
  left : (h.superclassChain a).complete = true
  right : (h.superclassChain b).complete = true
  apart : ∀ {d : String}, h.Inherits a d → ¬h.Inherits b d

/-- Neither class is the root, and neither counts as below the other. -/
structure AreUnrelated (h : Hierarchy) (a b : String) : Prop where
  notRoot : ¬(a = ClassName.object ∨ b = ClassName.object)
  notAbove : ¬h.isSubclass b a = true
  notBelow : ¬h.isSubclass a b = true

/-- The ways in which two classes come to have a third one in common. -/
inductive Meets (h : Hierarchy) (a b : String) : String → Prop
  | first (hsub : h.isSubclass b a = true) : Meets h a b a
  | root (hroot : a = ClassName.object ∨ b = ClassName.object) : Meets h a b ClassName.object
  | second (hroot : ¬(a = ClassName.object ∨ b = ClassName.object))
      (hback : ¬h.isSubclass b a = true) (hsub : h.isSubclass a b = true) : Meets h a b b
  | interface (hun : h.AreUnrelated a b)
      (hkind : h.isInterface a = true ∨ h.isInterface b = true) : Meets h a b ClassName.object
  | shared {c : String} (hun : h.AreUnrelated a b)
      (hkind : ¬(h.isInterface a = true ∨ h.isInterface b = true)) (hshared : h.IsShared a b c) :
      Meets h a b c
  | apart (hun : h.AreUnrelated a b)
      (hkind : ¬(h.isInterface a = true ∨ h.isInterface b = true)) (hapart : h.AreApart a b) :
      Meets h a b ClassName.object

/-- A gap hides what two classes have in common that are unrelated and no interfaces. -/
structure IsHidden (h : Hierarchy) (a b : String) : Prop where
  unrelated : h.AreUnrelated a b
  notInterface : ¬(h.isInterface a = true ∨ h.isInterface b = true)
  apart : ∀ {d : String}, h.Inherits a d → ¬h.Inherits b d
  gap : ¬((h.superclassChain a).complete = true ∧ (h.superclassChain b).complete = true)

theorem isShared_of_find?
    (hfind : (h.superclassChain a).classes.find? (· ∈ (h.superclassChain b).classes) = some c) :
    h.IsShared a b c where
  left := mem_superclassChain_iff.mp (List.mem_of_find?_eq_some hfind)
  right := by
    have hother := List.find?_some hfind
    exact mem_superclassChain_iff.mp (of_decide_eq_true hother)
  closest had hbd :=
    inherits_of_find? hfind had (decide_eq_true (mem_superclassChain_iff.mpr hbd))

/-- An answer comes in one of these ways, and is missing only where it is hidden. -/
theorem commonSuperclass?_cases (h : Hierarchy) (a b : String) :
    (∃ c, h.commonSuperclass? a b = some c ∧ h.Meets a b c) ∨
      h.commonSuperclass? a b = none ∧ h.IsHidden a b := by
  unfold commonSuperclass?
  split
  · next heq => exact .inl ⟨a, rfl, .first (heq ▸ (Inherits.refl a).isSubclass)⟩
  split
  · next hroot => exact .inl ⟨_, rfl, .root hroot⟩
  next hroot =>
  split
  · next hsub => exact .inl ⟨a, rfl, .first hsub⟩
  next habove =>
  split
  · next hsub => exact .inl ⟨b, rfl, .second hroot habove hsub⟩
  next hbelow =>
  have hun : h.AreUnrelated a b := ⟨hroot, habove, hbelow⟩
  split
  · next hkind => exact .inl ⟨_, rfl, .interface hun hkind⟩
  next hkind =>
  dsimp only
  split
  · next common hfind => exact .inl ⟨common, rfl, .shared hun hkind (isShared_of_find? hfind)⟩
  next hfind =>
  have hnone {d : String} (had : h.Inherits a d) (hbd : h.Inherits b d) : False :=
    List.find?_eq_none.mp hfind d (mem_superclassChain_iff.mpr had)
      (decide_eq_true (mem_superclassChain_iff.mpr hbd))
  split
  · next hcomplete => exact .inl ⟨_, rfl, .apart hun hkind ⟨hcomplete.1, hcomplete.2, hnone⟩⟩
  · next hgap => exact .inr ⟨rfl, hun, hkind, hnone, hgap⟩

theorem meets_of_commonSuperclass? (hc : h.commonSuperclass? a b = some c) : h.Meets a b c := by
  rcases h.commonSuperclass?_cases a b with ⟨d, hd, hmeets⟩ | ⟨hnone, -⟩
  · exact Option.some.inj (hd.symm.trans hc) ▸ hmeets
  · rw [hnone] at hc
    cases hc

end ClassText.Hierarchy
