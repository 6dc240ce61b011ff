import ClassText.Frame.Merge
import ClassText.Hierarchy.Standard
import ClassText.Proofs.Hierarchy.Absorption

/-!
# Where exceptions meet

The classes that a handler catches are exceptions, whether they are known or not.
Where several of them arrive at one handler they are merged, one after the other,
and what comes of it should still be known as an exception, for else the next
class that is hidden by a gap merges with it to the root.

Two exceptions meet at one of them, at `java/lang/Throwable`, or at a class that
both inherit from (`IsException.common`). In the first two cases the class is
known as an exception. In the third it need not be: a class of which nothing is
known but that two caught classes inherit from it, itself below a gap, is neither
caught nor seen to be below `java/lang/Throwable` (`degrades_hiddenBase`). Where
all classes shared like this are known as exceptions, every merge is, in every
order (`mergeCaught_throwable`).
-/

namespace ClassText

namespace Hierarchy

variable {h : Hierarchy} {name : String}

/-- The standard library, and other classes and libraries that do not define its two topmost
classes anew. -/
structure ExtendsStandard (h : Hierarchy) : Prop where
  classes : ∀ info ∈ h.classes,
    info.name ≠ ClassName.throwable ∧ info.name ≠ ClassName.object
  library : ∃ more, h.library = standard.library ++ more

namespace ExtendsStandard

theorem resolve?_of_standard (hx : h.ExtendsStandard) {info : ClassInfo}
    (hnew : ∀ other ∈ h.classes, other.name ≠ name)
    (hinfo : standard.resolve? name = some info) : h.resolve? name = some info := by
  obtain ⟨more, hmore⟩ := hx.library
  have hnone : h.classes.find? (·.name == name) = none :=
    List.find?_eq_none.mpr fun other hother hname => hnew other hother (eq_of_beq hname)
  obtain ⟨entry, hentry, rfl⟩ := Option.map_eq_some_iff.mp hinfo
  rw [Hierarchy.resolve?, hnone, Option.none_or, hmore, List.find?_append, hentry]
  rfl

theorem resolve?_object (hx : h.ExtendsStandard) :
    h.resolve? ClassName.object = some ⟨ClassName.object, none, [], false⟩ :=
  hx.resolve?_of_standard (fun other hother => (hx.classes other hother).2) (by decide +kernel)

theorem resolve?_throwable (hx : h.ExtendsStandard) :
    h.resolve? ClassName.throwable =
      some (classEntry ClassName.object ClassName.throwable ["java/io/Serializable"]) :=
  hx.resolve?_of_standard (fun other hother => (hx.classes other hother).1) (by decide +kernel)

theorem eq_of_inherits_object (hx : h.ExtendsStandard) (hname : h.Inherits ClassName.object name) :
    name = ClassName.object := by
  rcases Relation.ReflTransGen.cases_head hname with heq | ⟨super, hstep, -⟩
  · exact heq.symm
  · obtain ⟨info, hinfo, hsuper⟩ := mem_above_false_iff.mp hstep
    obtain rfl := Option.some.inj (hx.resolve?_object.symm.trans hinfo)
    cases hsuper

theorem eq_of_inherits_throwable (hx : h.ExtendsStandard)
    (hname : h.Inherits ClassName.throwable name) :
    name = ClassName.throwable ∨ name = ClassName.object := by
  rcases Relation.ReflTransGen.cases_head hname with heq | ⟨super, hstep, hrest⟩
  · exact .inl heq.symm
  · obtain ⟨info, hinfo, hsuper⟩ := mem_above_false_iff.mp hstep
    obtain rfl := Option.some.inj (hx.resolve?_throwable.symm.trans hinfo)
    obtain rfl := Option.some.inj hsuper
    exact .inr (hx.eq_of_inherits_object hrest)

theorem complete_of_inherits_object (hx : h.ExtendsStandard)
    (hname : h.Inherits name ClassName.object) : (h.superclassChain name).complete = true := by
  refine hname.complete (complete_superclassChain_iff.mpr fun b hb => ?_)
  rw [hx.eq_of_inherits_object hb, hx.resolve?_object, Option.isSome_some]

end ExtendsStandard

end Hierarchy

namespace Ancestry

open Hierarchy

variable {a : Ancestry} {types : List String} {s t c : String}

/-! ## Exceptions -/

/-- A class that counts as an exception, with nothing known against it. -/
structure IsException (a : Ancestry) (name : String) : Prop where
  throwable : a.isThrowable (.object name) = true
  notInterface : a.hierarchy.isInterface name = false
  chain : (a.hierarchy.superclassChain name).complete = true →
    a.hierarchy.Inherits name ClassName.throwable

theorem isThrowable_iff : a.isThrowable (.object s) = true ↔
    ∃ c, a.hierarchy.Inherits s c ∧ (c = ClassName.throwable ∨ c ∈ a.caught) := by
  simp [isThrowable, mem_superclassChain_iff]

theorem IsException.ne_object (hx : a.hierarchy.ExtendsStandard) (hs : a.IsException s) :
    s ≠ ClassName.object := by
  rintro rfl
  have hroot := hx.eq_of_inherits_object
    (hs.chain (hx.complete_of_inherits_object (.refl _)))
  exact absurd hroot (by decide)

theorem isException_throwable (hx : a.hierarchy.ExtendsStandard) :
    a.IsException ClassName.throwable where
  throwable := isThrowable_iff.mpr ⟨_, .refl _, .inl rfl⟩
  notInterface := by rw [isInterface, hx.resolve?_throwable]; rfl
  chain _ := .refl _

/-- Exceptions meet at one of the two, or at a class that both inherit from, which is not the
root: before the root stands `java/lang/Throwable` on both chains. -/
theorem IsException.common (hx : a.hierarchy.ExtendsStandard) (hs : a.IsException s)
    (ht : a.IsException t) (hc : a.hierarchy.commonSuperclass? s t = some c) :
    c = s ∨ c = t ∨ (¬ a.hierarchy.Inherits t s ∧ a.hierarchy.Inherits s c ∧
      a.hierarchy.Inherits t c ∧ c ≠ ClassName.object) := by
  have hsroot := hs.ne_object hx
  have htroot := ht.ne_object hx
  cases meets_of_commonSuperclass? hc with
  | first _ => exact .inl rfl
  | root hroot => exact absurd hroot (not_or.mpr ⟨hsroot, htroot⟩)
  | second _ _ _ => exact .inr (.inl rfl)
  | interface _ hkind => simp [hs.notInterface, ht.notInterface] at hkind
  | shared hun _ hshared =>
    have hback := hun.notAbove
    rw [isSubclass_iff_inherits hs.notInterface hsroot] at hback
    refine .inr (.inr ⟨hback, hshared.left, hshared.right, ?_⟩)
    -- Nothing follows the root, but `java/lang/Throwable` is on both chains.
    rintro rfl
    have hsT := hs.chain (hx.complete_of_inherits_object hshared.left)
    have htT := ht.chain (hx.complete_of_inherits_object hshared.right)
    have hlast := hx.eq_of_inherits_object (hshared.closest hsT htT)
    exact absurd hlast (by decide)
  | apart _ _ hapart =>
    exact absurd (ht.chain hapart.right) (hapart.apart (hs.chain hapart.left))

/-! ## Merging what is caught -/

/-- Classes that the handlers of a method catch. None is known to be an interface, or not to be
below `java/lang/Throwable`. -/
structure AreCaught (a : Ancestry) (types : List String) : Prop where
  caught : ∀ t ∈ types, t ∈ a.caught
  notInterface : ∀ t ∈ types, a.hierarchy.isInterface t = false
  chain : ∀ t ∈ types, (a.hierarchy.superclassChain t).complete = true →
    ClassName.throwable ∈ (a.hierarchy.superclassChain t).classes

/-- The classes that two of these classes inherit from count as exceptions, apart from the root. -/
def MeetInExceptions (a : Ancestry) (types : List String) : Prop :=
  ∀ s ∈ types, ∀ t ∈ types, s ≠ t →
    ∀ c ∈ (a.hierarchy.superclassChain s).classes, c ∈ (a.hierarchy.superclassChain t).classes →
      c ≠ ClassName.object →
        a.isThrowable (.object c) = true ∧ a.hierarchy.isInterface c = false

/-- The type at a place where these classes arrive one after the other. -/
def mergeCaught (a : Ancestry) (first : String) (rest : List String) : LiveType :=
  rest.foldl (fun type name => a.merge type (.object (.object name)) none) (.object (.object first))

theorem AreCaught.isException (h : a.AreCaught types) (ht : t ∈ types) : a.IsException t where
  throwable := isThrowable_iff.mpr ⟨t, .refl t, .inr (h.caught t ht)⟩
  notInterface := h.notInterface t ht
  chain hcomplete := mem_superclassChain_iff.mp (h.chain t ht hcomplete)

theorem merge_objects (a : Ancestry) (s t : String) :
    a.merge (.object (.object s)) (.object (.object t)) none =
      .object (.object ((a.hierarchy.commonSuperclass? s t).getD
        (if a.isThrowable (.object s) ∧ a.isThrowable (.object t) then ClassName.throwable
          else ClassName.object))) := by
  by_cases heq : s = t
  · subst heq
    rw [merge, if_pos rfl, commonSuperclass?, if_pos rfl, Option.getD_some]
  · rw [merge, if_neg (by simpa using heq)]
    show VerificationType.object (a.mergeReferences (.object s) (.object t) none) = _
    unfold mergeReferences
    rw [commonRefType?_objects]
    cases a.hierarchy.commonSuperclass? s t with
    | some c => rfl
    | none =>
      rw [Option.getD_none]
      dsimp only [Option.map_none]
      split <;> rfl

/-- A type that comes of merging these classes: an exception that one of them inherits from, or
`java/lang/Throwable`. -/
def ComesOf (a : Ancestry) (types : List String) (name : String) : Prop :=
  a.IsException name ∧ (name = ClassName.throwable ∨ ∃ s ∈ types, a.hierarchy.Inherits s name)

/-- What is shared by two caught classes is an exception, if it counts as one. -/
theorem isException_shared (hx : a.hierarchy.ExtendsStandard) (ht : a.IsException t)
    (htc : a.hierarchy.Inherits t c) (hne : c ≠ ClassName.object)
    (hc : a.isThrowable (.object c) = true ∧ a.hierarchy.isInterface c = false) :
    a.IsException c where
  throwable := hc.1
  notInterface := hc.2
  chain hcomplete := by
    rcases htc.total (ht.chain (htc.complete hcomplete)) with hcT | hTc
    · exact hcT
    · rcases hx.eq_of_inherits_throwable hTc with rfl | hroot
      · exact .refl _
      · exact absurd hroot hne

/-- One more class that arrives leaves a type that comes of merging. -/
theorem ComesOf.merge (hx : a.hierarchy.ExtendsStandard) (hcaught : a.AreCaught types)
    (hmeet : a.MeetInExceptions types) (hs : a.ComesOf types s) (ht : t ∈ types) :
    ∃ c, a.merge (.object (.object s)) (.object (.object t)) none = .object (.object c) ∧
      a.ComesOf types c := by
  obtain ⟨hs, horigin⟩ := hs
  have ht' := hcaught.isException ht
  rw [merge_objects]
  refine ⟨_, rfl, ?_⟩
  cases hcommon : a.hierarchy.commonSuperclass? s t with
  | none =>
    rw [Option.getD_none, if_pos ⟨hs.throwable, ht'.throwable⟩]
    exact ⟨isException_throwable hx, .inl rfl⟩
  | some c =>
    rw [Option.getD_some]
    rcases hs.common hx ht' hcommon with rfl | rfl | ⟨hback, hsc, htc, hne⟩
    · exact ⟨hs, horigin⟩
    · exact ⟨ht', .inr ⟨c, ht, .refl c⟩⟩
    · rcases horigin with rfl | ⟨origin, horigin, hos⟩
      · rcases hx.eq_of_inherits_throwable hsc with rfl | hroot
        · exact absurd htc hback
        · exact absurd hroot hne
      · have hdiffer : origin ≠ t := fun heq => hback (heq ▸ hos)
        have hoc := hos.trans hsc
        have hshared := hmeet origin horigin t ht hdiffer c (mem_superclassChain_iff.mpr hoc)
          (mem_superclassChain_iff.mpr htc) hne
        exact ⟨isException_shared hx ht' htc hne hshared, .inr ⟨origin, horigin, hoc⟩⟩

theorem ComesOf.mergeRest (hx : a.hierarchy.ExtendsStandard) (hcaught : a.AreCaught types)
    (hmeet : a.MeetInExceptions types) :
    ∀ {rest : List String} {s : String}, a.ComesOf types s → (∀ t ∈ rest, t ∈ types) →
      ∃ c, a.mergeCaught s rest = .object (.object c) ∧ a.ComesOf types c
  | [], s, hs, _ => ⟨s, rfl, hs⟩
  | t :: rest, s, hs, hrest => by
    obtain ⟨ht, hrest⟩ := List.forall_mem_cons.mp hrest
    obtain ⟨c, hc, hcomes⟩ := hs.merge hx hcaught hmeet ht
    rw [mergeCaught, List.foldl_cons, hc]
    exact hcomes.mergeRest hx hcaught hmeet hrest

/-- Where caught classes arrive, in any order and each any number of times, the type is one that
counts as an exception, and not the root, as long as what two of them inherit from does. -/
theorem mergeCaught_throwable (hx : a.hierarchy.ExtendsStandard) (hcaught : a.AreCaught types)
    (hmeet : a.MeetInExceptions types) (first : String) (rest : List String)
    (harrive : ∀ t ∈ first :: rest, t ∈ types) :
    ∃ name, a.mergeCaught first rest = .object (.object name) ∧
      a.isThrowable (.object name) = true ∧ name ≠ ClassName.object := by
  obtain ⟨hfirst, hrest⟩ := List.forall_mem_cons.mp harrive
  have hstart : a.ComesOf types first :=
    ⟨hcaught.isException hfirst, .inr ⟨first, hfirst, .refl first⟩⟩
  obtain ⟨name, hname, hexception, -⟩ := hstart.mergeRest hx hcaught hmeet hrest
  exact ⟨name, hname, hexception.throwable, hexception.ne_object hx⟩

/-- Two caught classes with one superclass, which extends a class that is not known, and a caught
class of the standard library. -/
def hiddenBase : Ancestry where
  hierarchy :=
    ⟨[classEntry "org/lib/LibException" "com/x/BaseException" [],
      classEntry "com/x/BaseException" "com/x/FirstException" [],
      classEntry "com/x/BaseException" "com/x/SecondException" []], standard.library⟩
  caught := ["com/x/FirstException", "com/x/SecondException", "java/io/IOException"]

/-- A handler that catches the class that is not known as well. -/
def caughtBase : Ancestry :=
  { hiddenBase with caught := "org/lib/LibException" :: hiddenBase.caught }

theorem extendsStandard_hiddenBase : hiddenBase.hierarchy.ExtendsStandard :=
  ⟨by decide +kernel, [], by rw [List.append_nil]; rfl⟩

theorem mergeCaught_throwable_caughtBase :
    caughtBase.hierarchy.ExtendsStandard ∧ caughtBase.AreCaught caughtBase.caught ∧
    caughtBase.MeetInExceptions caughtBase.caught ∧
    ∃ name, caughtBase.mergeCaught "com/x/FirstException"
        ["com/x/SecondException", "java/io/IOException"] = .object (.object name) ∧
      caughtBase.isThrowable (.object name) = true ∧ name ≠ ClassName.object := by
  have hx : caughtBase.hierarchy.ExtendsStandard := extendsStandard_hiddenBase
  have hcaught : caughtBase.AreCaught caughtBase.caught :=
    ⟨by decide +kernel, by decide +kernel, by decide +kernel⟩
  have hmeet : caughtBase.MeetInExceptions caughtBase.caught := by
    unfold MeetInExceptions
    decide +kernel
  exact ⟨hx, hcaught, hmeet, mergeCaught_throwable hx hcaught hmeet _ _ (by decide +kernel)⟩

/-- What two caught classes share is not known as an exception if it is below a gap. Then the
next exception merges with it to the root, unless it came before. -/
theorem degrades_hiddenBase :
    hiddenBase.hierarchy.ExtendsStandard ∧ hiddenBase.AreCaught hiddenBase.caught ∧
    hiddenBase.mergeCaught "com/x/FirstException"
        ["com/x/SecondException", "java/io/IOException"] = .object (.object ClassName.object) ∧
      hiddenBase.isThrowable (.object ClassName.object) = false ∧
    hiddenBase.mergeCaught "com/x/FirstException"
        ["java/io/IOException", "com/x/SecondException"] =
      .object (.object ClassName.throwable) := by
  refine ⟨extendsStandard_hiddenBase, ⟨?_, ?_, ?_⟩, ?_, ?_, ?_⟩ <;> decide +kernel

end Ancestry

end ClassText
