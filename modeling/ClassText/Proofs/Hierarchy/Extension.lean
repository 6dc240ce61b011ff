import ClassText.Proofs.Hierarchy.Absorption

/-!
# Hierarchies that know more

A hierarchy grows when classes become known, as when a library is added
(`grows_addLibrary`). What was known stays as it was. So a way up stays, and one
that ended at a gap may go on from there, but nowhere else
(`Grows.inherits_or`).

The closest class that two classes both inherit from (`IsShared`) was found before
the gap, if it was found, and everything that the two come to share later is above
it. Where classes never extend each other in a circle there is only one such class,
and it is the answer, whichever way it is found. So an answer stays when the
hierarchy grows (`commonSuperclass?_grows`).

Circles have to be left out of the hierarchy that has grown: if it turns out that
the superclass of a class extends that class, then either of them counts as below
the other, and the answer is the one that is named first. Interfaces are left out
where they are known from the beginning; a class that turns out to be an interface
was a gap before, and what another class has in common with a gap is the gap itself.
-/

namespace ClassText.Hierarchy

variable {h grown : Hierarchy} {a b c d : String}

/-- What the first hierarchy knows, the second one knows as well. -/
def Grows (h grown : Hierarchy) : Prop :=
  ∀ ⦃name : String⦄ ⦃info : ClassInfo⦄, h.resolve? name = some info →
    grown.resolve? name = some info

/-- A library that is added is asked after everything else. -/
theorem grows_addLibrary (h : Hierarchy) (found : List (String × ClassInfo)) :
    h.Grows (h.addLibrary found) := by
  intro name info hinfo
  rw [resolve?, Option.or_eq_some_iff] at hinfo ⊢
  rw [addLibrary, List.find?_append, Option.map_or]
  refine hinfo.imp_right (And.imp_right fun hlibrary => ?_)
  rw [hlibrary, Option.some_or]

/-- No class is reached from itself through superclasses. -/
def IsAcyclic (h : Hierarchy) : Prop :=
  ∀ name, ¬Relation.TransGen (h.StepsTo false) name name

theorem IsAcyclic.eq (hacyclic : h.IsAcyclic) (hab : h.Inherits a b) (hba : h.Inherits b a) :
    a = b := by
  rcases Relation.reflTransGen_iff_eq_or_transGen.mp hab with heq | hup
  · exact heq.symm
  · exact absurd (hup.trans_left hba) (hacyclic a)

/-! ## Ways up -/

theorem Grows.stepsTo (hgrows : h.Grows grown) (hab : h.StepsTo false a b) :
    grown.StepsTo false a b := by
  obtain ⟨info, hinfo, hsuper⟩ := mem_above_false_iff.mp hab
  exact mem_above_false_iff.mpr ⟨info, hgrows hinfo, hsuper⟩

theorem Grows.inherits (hgrows : h.Grows grown) (hab : h.Inherits a b) : grown.Inherits a b :=
  Relation.ReflTransGen.mono (fun _ _ hstep => hgrows.stepsTo hstep) a b hab

/-- Of a class that was known, nothing new becomes known. -/
theorem Grows.stepsTo_of_known (hgrows : h.Grows grown) (hknown : (h.resolve? a).isSome)
    (hab : grown.StepsTo false a b) : h.StepsTo false a b := by
  obtain ⟨info, hinfo⟩ := Option.isSome_iff_exists.mp hknown
  obtain ⟨other, hother, hsuper⟩ := mem_above_false_iff.mp hab
  obtain rfl := Option.some.inj ((hgrows hinfo).symm.trans hother)
  exact mem_above_false_iff.mpr ⟨info, hinfo, hsuper⟩

/-- What is new on the way up from a class is behind everything that was there before. -/
theorem Grows.inherits_or (hgrows : h.Grows grown) (hac : h.Inherits a c)
    (had : grown.Inherits a d) : h.Inherits a d ∨ grown.Inherits c d := by
  induction hac using Relation.ReflTransGen.head_induction_on with
  | refl => exact .inr had
  | @head a super hstep _ ih =>
    rcases Relation.ReflTransGen.cases_head had with rfl | ⟨other, hother, hrest⟩
    · exact .inl (.refl a)
    · obtain rfl := stepsTo_unique (hgrows.stepsTo hstep) hother
      exact (ih hrest).imp_left fun hup => .head hstep hup

/-- To a way that went over no gap nothing is added. -/
theorem Grows.inherits_of_complete (hgrows : h.Grows grown)
    (hcomplete : (h.superclassChain a).complete = true) (had : grown.Inherits a d) :
    h.Inherits a d := by
  induction had with
  | refl => exact .refl a
  | tail _ hstep ih =>
    have hknown := complete_superclassChain_iff.mp hcomplete _ ih
    exact ih.tail (hgrows.stepsTo_of_known hknown hstep)

theorem Grows.complete (hgrows : h.Grows grown)
    (hcomplete : (h.superclassChain a).complete = true) :
    (grown.superclassChain a).complete = true := by
  refine complete_superclassChain_iff.mpr fun b hb => ?_
  have hknown := complete_superclassChain_iff.mp hcomplete b
    (hgrows.inherits_of_complete hcomplete hb)
  obtain ⟨info, hinfo⟩ := Option.isSome_iff_exists.mp hknown
  rw [hgrows hinfo, Option.isSome_some]

/-- What is known cannot become an interface, or cease to be one. -/
theorem Grows.isInterface_eq (hgrows : h.Grows grown) (hknown : (h.resolve? a).isSome) :
    grown.isInterface a = h.isInterface a := by
  obtain ⟨info, hinfo⟩ := Option.isSome_iff_exists.mp hknown
  rw [isInterface, isInterface, hinfo, hgrows hinfo]

/-- From a class that becomes an interface no way went up. -/
theorem Grows.eq_of_isInterface (hgrows : h.Grows grown) (hac : h.Inherits a c)
    (hbefore : h.isInterface a = false) (hafter : grown.isInterface a = true) : a = c := by
  by_contra hne
  rw [hgrows.isInterface_eq (hac.known (Ne.symm hne)), hbefore] at hafter
  cases hafter

/-! ## What two classes share -/

theorem IsShared.grows (hshared : h.IsShared a b c) (hgrows : h.Grows grown) :
    grown.IsShared a b c where
  left := hgrows.inherits hshared.left
  right := hgrows.inherits hshared.right
  closest had hbd := by
    rcases hgrows.inherits_or hshared.left had with hleft | hup
    · rcases hgrows.inherits_or hshared.right hbd with hright | hup
      · exact hgrows.inherits (hshared.closest hleft hright)
      · exact hup
    · exact hup

theorem AreApart.grows (hapart : h.AreApart a b) (hgrows : h.Grows grown) :
    grown.AreApart a b where
  left := hgrows.complete hapart.left
  right := hgrows.complete hapart.right
  apart had hbd := hapart.apart (hgrows.inherits_of_complete hapart.left had)
    (hgrows.inherits_of_complete hapart.right hbd)

/-- What an answer says about two classes that are no interfaces. -/
theorem commonSuperclass?_eq_some (ha : h.isInterface a = false) (hb : h.isInterface b = false)
    (hroot : ¬(a = ClassName.object ∨ b = ClassName.object))
    (hc : h.commonSuperclass? a b = some c) :
    h.IsShared a b c ∨ h.AreApart a b ∧ c = ClassName.object := by
  obtain ⟨hnea, hneb⟩ := not_or.mp hroot
  cases meets_of_commonSuperclass? hc with
  | first hsub =>
    exact .inl ⟨.refl a, (isSubclass_iff_inherits ha hnea).mp hsub, fun had _ => had⟩
  | root hmet => exact absurd hmet hroot
  | second _ _ hsub =>
    exact .inl ⟨(isSubclass_iff_inherits hb hneb).mp hsub, .refl b, fun _ hbd => hbd⟩
  | interface _ hkind => simp [ha, hb] at hkind
  | shared _ _ hshared => exact .inl hshared
  | apart _ _ hapart => exact .inr ⟨hapart, rfl⟩

/-- Without circles there is one class that two classes share, and it is the answer. If one of them
is an interface, it has to be that class. -/
theorem IsShared.commonSuperclass?_eq (hshared : h.IsShared a b c) (hacyclic : h.IsAcyclic)
    (ha : h.isInterface a = true → a = c) (hb : h.isInterface b = true → b = c)
    (hroot : ¬(a = ClassName.object ∨ b = ClassName.object)) :
    h.commonSuperclass? a b = some c := by
  obtain ⟨hnea, hneb⟩ := not_or.mp hroot
  have hunique {d : String} (had : h.Inherits a d) (hbd : h.Inherits b d)
      (hdc : h.Inherits d c) : d = c :=
    hacyclic.eq hdc (hshared.closest had hbd)
  rcases h.commonSuperclass?_cases a b with ⟨d, hd, hmeets⟩ | ⟨-, hhidden⟩
  · suffices d = c by rw [hd, this]
    cases hmeets with
    | first hsub =>
      cases hkind : h.isInterface a with
      | true => exact ha hkind
      | false =>
        exact hunique (.refl a) ((isSubclass_iff_inherits hkind hnea).mp hsub) hshared.left
    | root hmet => exact absurd hmet hroot
    | second _ _ hsub =>
      cases hkind : h.isInterface b with
      | true => exact hb hkind
      | false =>
        exact hunique ((isSubclass_iff_inherits hkind hneb).mp hsub) (.refl b) hshared.right
    | interface hun hkind =>
      rcases hkind with hkind | hkind
      · exact absurd (ha hkind ▸ hshared.right).isSubclass hun.notAbove
      · exact absurd (hb hkind ▸ hshared.left).isSubclass hun.notBelow
    | shared _ _ hfound =>
      exact hunique hfound.left hfound.right (hfound.closest hshared.left hshared.right)
    | apart _ _ hapart => exact absurd hshared.right (hapart.apart hshared.left)
  · exact absurd hshared.right (hhidden.apart hshared.left)

/-- Two classes that share none have the root in common. -/
theorem AreApart.commonSuperclass?_eq (hapart : h.AreApart a b)
    (ha : h.isInterface a = false) (hb : h.isInterface b = false)
    (hroot : ¬(a = ClassName.object ∨ b = ClassName.object)) :
    h.commonSuperclass? a b = some ClassName.object := by
  obtain ⟨hnea, hneb⟩ := not_or.mp hroot
  rcases h.commonSuperclass?_cases a b with ⟨d, hd, hmeets⟩ | ⟨-, hhidden⟩
  · suffices d = ClassName.object by rw [hd, this]
    cases hmeets with
    | first hsub =>
      exact absurd ((isSubclass_iff_inherits ha hnea).mp hsub) (hapart.apart (.refl a))
    | second _ _ hsub =>
      exact absurd (.refl b) (hapart.apart ((isSubclass_iff_inherits hb hneb).mp hsub))
    | shared _ _ hshared => exact absurd hshared.right (hapart.apart hshared.left)
    | root | interface | apart => rfl
  · exact absurd ⟨hapart.left, hapart.right⟩ hhidden.gap

/-- An answer about two classes that are not known as interfaces stays when the hierarchy grows. It
is the closest class that they share, or the root. -/
theorem commonSuperclass?_grows (hgrows : h.Grows grown) (hacyclic : grown.IsAcyclic)
    (ha : h.isInterface a = false) (hb : h.isInterface b = false)
    (hc : h.commonSuperclass? a b = some c) :
    grown.commonSuperclass? a b = some c ∧ (c = ClassName.object ∨ grown.IsShared a b c) := by
  by_cases hroot : a = ClassName.object ∨ b = ClassName.object
  · rw [commonSuperclass?_of_root hroot] at hc ⊢
    exact ⟨hc, .inl (Option.some.inj hc).symm⟩
  rcases commonSuperclass?_eq_some ha hb hroot hc with hshared | ⟨hapart, rfl⟩
  · have hlater := hshared.grows hgrows
    exact ⟨hlater.commonSuperclass?_eq hacyclic (hgrows.eq_of_isInterface hshared.left ha)
      (hgrows.eq_of_isInterface hshared.right hb) hroot, .inr hlater⟩
  · have hknown {name : String} (hcomplete : (h.superclassChain name).complete = true) :=
      complete_superclassChain_iff.mp hcomplete name (.refl name)
    have hleft := hgrows.isInterface_eq (hknown hapart.left)
    have hright := hgrows.isInterface_eq (hknown hapart.right)
    exact ⟨(hapart.grows hgrows).commonSuperclass?_eq (hleft.trans ha) (hright.trans hb) hroot,
      .inl rfl⟩

/-! ## A library that is added -/

/-- There are no circles if superclasses have a lower rank. -/
theorem isAcyclic_of_rank (rank : String → Nat)
    (hclasses : ∀ info ∈ h.classes, info.superclass.all (rank · < rank info.name) = true)
    (hlibrary : ∀ entry ∈ h.library, entry.2.superclass.all (rank · < rank entry.1) = true) :
    h.IsAcyclic := by
  have hstep {a b : String} (hab : h.StepsTo false a b) : rank b < rank a := by
    obtain ⟨info, hinfo, hsuper⟩ := mem_above_false_iff.mp hab
    rw [resolve?, Option.or_eq_some_iff, Option.map_eq_some_iff] at hinfo
    rcases hinfo with hfind | ⟨-, entry, hfind, rfl⟩
    · have hrank := hclasses info (List.mem_of_find?_eq_some hfind)
      obtain rfl : info.name = a := by simpa using List.find?_some hfind
      simpa [hsuper] using hrank
    · have hrank := hlibrary entry (List.mem_of_find?_eq_some hfind)
      obtain rfl : entry.1 = a := by simpa using List.find?_some hfind
      simpa [hsuper] using hrank
  intro name hcircle
  have hless : ∀ {a b : String}, Relation.TransGen (h.StepsTo false) a b → rank b < rank a := by
    intro a b hab
    induction hab with
    | single hab => exact hstep hab
    | tail _ hbc ih => exact (hstep hbc).trans ih
  exact Nat.lt_irrefl _ (hless hcircle)

/-- Two classes of an archive with one superclass, which is not in it. -/
def archived : Hierarchy :=
  ⟨[⟨"com/x/Puppy", some "com/x/Dog", [], false⟩, ⟨"com/x/Dog", some "org/lib/Base", [], false⟩,
    ⟨"com/x/Cat", some "org/lib/Base", [], false⟩], []⟩

/-- The superclass is in a library, with what is above it. -/
def baseLibrary : List (String × ClassInfo) :=
  [("org/lib/Base", ⟨"org/lib/Base", some "org/lib/Top", [], false⟩),
    ("org/lib/Top", ⟨"org/lib/Top", some ClassName.object, [], false⟩)]

theorem commonSuperclass?_grows_archived :
    archived.Grows (archived.addLibrary baseLibrary) ∧
      (archived.addLibrary baseLibrary).IsAcyclic ∧
      archived.isInterface "com/x/Puppy" = false ∧ archived.isInterface "com/x/Cat" = false ∧
      archived.commonSuperclass? "com/x/Puppy" "com/x/Cat" = some "org/lib/Base" ∧
      (archived.addLibrary baseLibrary).commonSuperclass? "com/x/Puppy" "com/x/Cat" =
        some "org/lib/Base" := by
  have hgrows := grows_addLibrary archived baseLibrary
  have hacyclic : (archived.addLibrary baseLibrary).IsAcyclic :=
    isAcyclic_of_rank [ClassName.object, "org/lib/Top", "org/lib/Base", "com/x/Cat", "com/x/Dog",
      "com/x/Puppy"].idxOf (by decide +kernel) (by decide +kernel)
  have hpuppy : archived.isInterface "com/x/Puppy" = false := by decide +kernel
  have hcat : archived.isInterface "com/x/Cat" = false := by decide +kernel
  have hc : archived.commonSuperclass? "com/x/Puppy" "com/x/Cat" = some "org/lib/Base" := by
    decide +kernel
  exact ⟨hgrows, hacyclic, hpuppy, hcat, hc,
    (commonSuperclass?_grows hgrows hacyclic hpuppy hcat hc).1⟩

end ClassText.Hierarchy
