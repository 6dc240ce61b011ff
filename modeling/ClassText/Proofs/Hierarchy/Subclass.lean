import ClassText.Hierarchy.Standard
import ClassText.Proofs.Hierarchy.Chain

/-!
# What counts as below

The walk that decides whether one class is below another leaves interfaces out
unless it looks for one. In class files this should lose nothing: where an
interface is named there stands an interface, and above an interface there are
only interfaces and the root (`Hierarchy.SeparatesInterfaces`), so the way to a
class never goes through one.

The walk looks for an interface if the name is known as one. So the argument
covers the names that are known, but for superclasses of the root, to which an
interface leads as well (`IsOrdinary`); of all others a class counts as below if
it inherits from them (`isSubclass_iff_isBelow`). A name that is not known may be
that of an interface. Then a class that implements it does not count as below it,
although one that extends it does (`isSubclass_misses_service`).
-/

namespace ClassText.Hierarchy

variable {h : Hierarchy} {sub super : String}

/-- Where an interface is named no class stands, and interfaces have the root for their
superclass. -/
structure SeparatesInterfaces (h : Hierarchy) : Prop where
  listed : ∀ {name listed : String} {info other : ClassInfo}, h.resolve? name = some info →
    listed ∈ info.interfaces → h.resolve? listed = some other → other.isInterface = true
  superclass : ∀ {name : String} {info : ClassInfo}, h.resolve? name = some info →
    info.isInterface = true → info.superclass = some ClassName.object

/-- The name is known, and if it is that of a class, the root does not inherit from it. -/
def IsOrdinary (h : Hierarchy) (name : String) : Prop :=
  (h.resolve? name).isSome ∧ (h.isInterface name = true ∨ ¬h.Inherits ClassName.object name)

theorem isInterface_eq_true_iff {name : String} :
    h.isInterface name = true ↔ ∃ info, h.resolve? name = some info ∧ info.isInterface = true := by
  rw [isInterface, Option.any_eq_true]

/-! ## Ways without interfaces -/

/-- Whatever a class is below, it inherits from, unless that is an interface, is not known, or is
above the root. -/
theorem SeparatesInterfaces.inherits_of_isBelow (hsep : h.SeparatesInterfaces)
    (hbelow : h.IsBelow sub super) :
    h.Inherits sub super ∨ h.isInterface super = true ∨ h.resolve? super = none ∨
      h.Inherits ClassName.object super := by
  induction hbelow with
  | refl => exact .inl (.refl sub)
  | @tail middle super _ hstep ih =>
    obtain ⟨info, hinfo, hmem⟩ := hstep
    rcases List.mem_append.mp hmem with hsuper | hlisted
    · rw [Option.mem_toList] at hsuper
      have hup : h.Inherits middle super := .single (mem_above_false_iff.mpr ⟨info, hinfo, hsuper⟩)
      rcases ih with hinherits | hinterface | hgap | hroot
      · exact .inl (hinherits.trans hup)
      · obtain ⟨other, hother, hkind⟩ := isInterface_eq_true_iff.mp hinterface
        obtain rfl := Option.some.inj (hother.symm.trans hinfo)
        obtain rfl := Option.some.inj ((hsep.superclass hinfo hkind).symm.trans hsuper)
        exact .inr (.inr (.inr (.refl _)))
      · rw [hgap] at hinfo
        cases hinfo
      · exact .inr (.inr (.inr (hroot.trans hup)))
    · cases hother : h.resolve? super with
      | none => exact .inr (.inr (.inl rfl))
      | some other =>
        have hkind := hsep.listed hinfo hlisted hother
        exact .inr (.inl (isInterface_eq_true_iff.mpr ⟨other, hother, hkind⟩))

/-- In any hierarchy: to count as below is to inherit, and to be below if that is an interface. -/
theorem isSubclass_iff_inherits_or : h.isSubclass sub super = true ↔
    super = ClassName.object ∨ h.Inherits sub super ∨
      h.isInterface super = true ∧ h.IsBelow sub super := by
  constructor
  · intro hsub
    cases hinterface : h.isInterface super with
    | true => exact (isBelow_of_isSubclass hsub).elim (fun hb => .inr (.inr ⟨rfl, hb⟩)) .inl
    | false =>
      by_cases hroot : super = ClassName.object
      · exact .inl hroot
      · exact .inr (.inl ((isSubclass_iff_inherits hinterface hroot).mp hsub))
  · rintro (hroot | hinherits | ⟨hinterface, hbelow⟩)
    · exact isSubclass_iff.mpr (.inl hroot)
    · exact hinherits.isSubclass
    · exact isSubclass_iff.mpr (.inr (hinterface ▸ mem_walk_true_iff.mpr hbelow))

/-- Leaving interfaces out makes no difference where the name that is looked for is ordinary. For
other names only those count as below that inherit from them. -/
theorem isSubclass_iff_isBelow (hsep : h.SeparatesInterfaces) (sub super : String) :
    h.isSubclass sub super = true ↔
      sub = super ∨ super = ClassName.object ∨
        h.IsBelow sub super ∧ (h.IsOrdinary super ∨ h.Inherits sub super) := by
  rw [isSubclass_iff_inherits_or]
  constructor
  · rintro (hroot | hinherits | ⟨hinterface, hbelow⟩)
    · exact .inr (.inl hroot)
    · exact .inr (.inr ⟨hinherits.isBelow, .inr hinherits⟩)
    · obtain ⟨info, hinfo, -⟩ := isInterface_eq_true_iff.mp hinterface
      exact .inr (.inr ⟨hbelow, .inl ⟨by rw [hinfo, Option.isSome_some], .inl hinterface⟩⟩)
  · rintro (rfl | hroot | ⟨hbelow, ⟨hknown, hkind⟩ | hinherits⟩)
    · exact .inr (.inl (.refl sub))
    · exact .inl hroot
    · rcases hsep.inherits_of_isBelow hbelow with hinherits | hinterface | hgap | habove
      · exact .inr (.inl hinherits)
      · exact .inr (.inr ⟨hinterface, hbelow⟩)
      · rw [hgap] at hknown
        cases hknown
      · exact .inr (.inr ⟨hkind.resolve_right fun hnot => hnot habove, hbelow⟩)
    · exact .inr (.inl hinherits)

/-! ## A class that implements an interface -/

/-- It is enough to look the names of interfaces up one by one. -/
theorem separatesInterfaces_of_names (names : List String)
    (hlisted : ∀ info ∈ h.known, ∀ name ∈ info.interfaces, name ∈ names)
    (hnames : ∀ name ∈ names, (h.resolve? name).all (·.isInterface) = true)
    (hsuper : ∀ info ∈ h.known, info.isInterface = true →
      info.superclass = some ClassName.object) : h.SeparatesInterfaces where
  listed hinfo hmem hother := by
    have hall := hnames _ (hlisted _ (mem_known_of_resolve? hinfo) _ hmem)
    rwa [hother] at hall
  superclass hinfo := hsuper _ (mem_known_of_resolve? hinfo)

/-- The standard library, and a class with two interfaces, one of which is not in it. -/
def plugin : Hierarchy :=
  ⟨[classEntry ClassName.object "com/x/Plugin" ["java/io/Closeable", "org/lib/Service"]],
    standard.library⟩

theorem separatesInterfaces_plugin : plugin.SeparatesInterfaces :=
  separatesInterfaces_of_names ("org/lib/Service" :: standardInterfaces.map (·.name))
    (by decide +kernel) (by decide +kernel) (by decide +kernel)

theorem isSubclass_iff_isBelow_plugin :
    plugin.SeparatesInterfaces ∧ plugin.IsBelow "com/x/Plugin" "java/lang/AutoCloseable" ∧
      plugin.IsOrdinary "java/lang/AutoCloseable" ∧
      plugin.isSubclass "com/x/Plugin" "java/lang/AutoCloseable" = true := by
  have hbelow : plugin.IsBelow "com/x/Plugin" "java/lang/AutoCloseable" :=
    (IsBelow.step (b := "java/io/Closeable") rfl (by decide +kernel)).trans
      (.step rfl (by decide +kernel))
  have hinterface : plugin.isInterface "java/lang/AutoCloseable" = true := by decide +kernel
  obtain ⟨info, hinfo, -⟩ := isInterface_eq_true_iff.mp hinterface
  have hordinary : plugin.IsOrdinary "java/lang/AutoCloseable" :=
    ⟨by rw [hinfo, Option.isSome_some], .inl hinterface⟩
  exact ⟨separatesInterfaces_plugin, hbelow, hordinary,
    (isSubclass_iff_isBelow separatesInterfaces_plugin _ _).mpr
      (.inr (.inr ⟨hbelow, .inl hordinary⟩))⟩

/-- The class is below the interface that is not known, and does not count as below it. -/
theorem isSubclass_misses_service :
    plugin.SeparatesInterfaces ∧ plugin.resolve? "org/lib/Service" = none ∧
      plugin.IsBelow "com/x/Plugin" "org/lib/Service" ∧
      plugin.isSubclass "com/x/Plugin" "org/lib/Service" = false := by
  refine ⟨separatesInterfaces_plugin, ?_, .step rfl ?_, ?_⟩ <;> decide +kernel

end ClassText.Hierarchy
