import ClassText.Proofs.Hierarchy.Meeting

/-!
# Ways up that are clear

A type widens to what it has in common with others, and that to what it has in
common with others in turn. The way up from a type is clear
(`Hierarchy.IsClearAbove`) if no gap is met on it. That is so where everything
above the types in scope is known (`isClearAbove_of_rooted`), and also where
nothing is known above a class, apart from the root and interfaces, which have
the root in common with every class (`isClearAbove_of_outermost`).
-/

namespace ClassText.Hierarchy

/-- The second type is what the first one has in common with some type in scope. -/
def Widens (h : Hierarchy) (scope : String → Prop) (s u : RefType) : Prop :=
  ∃ t, (∀ name, t.name? = some name → scope name) ∧ h.commonRefType? s t = some u

/-- No gap hides what the types to which this one widens have in common with types in scope. -/
def IsClearAbove (h : Hierarchy) (scope : String → Prop) (type : RefType) : Prop :=
  ∀ s, Relation.ReflTransGen (h.Widens scope) type s → s ≠ type →
    ∀ t, (∀ name, t.name? = some name → scope name) → (h.commonRefType? s t).isSome

variable {h : Hierarchy} {scope names : String → Prop} {type : RefType}

/-- Among types whose classes are known, with all that is above them, every way is clear. -/
theorem isClearAbove_of_rooted (hnames : h.IsRooted names)
    (htype : ∀ name, type.name? = some name → h.InScope names name) :
    h.IsClearAbove (h.InScope names) type := by
  have hscope : ∀ {s : RefType}, Relation.ReflTransGen (h.Widens (h.InScope names)) type s →
      ∀ name, s.name? = some name → h.InScope names name := by
    intro s hs
    induction hs with
    | refl => exact htype
    | tail _ hstep ih =>
      obtain ⟨t, ht, hu⟩ := hstep
      obtain ⟨u, hu', hfits, -⟩ := commonRefType?_spec hnames ih ht
      obtain rfl := Option.some.inj (hu.symm.trans hu')
      exact hfits
  intro s hs _ t ht
  obtain ⟨u, hu, -⟩ := commonRefType?_spec hnames (hscope hs) ht
  rw [hu, Option.isSome_some]

/-- The class is the root, or an interface: what it has in common with others is never hidden. -/
def IsOpen (h : Hierarchy) (name : String) : Prop :=
  name = ClassName.object ∨ h.isInterface name = true

theorem isSome_commonSuperclass? {a b : String} (ha : h.IsOpen a) :
    (h.commonSuperclass? a b).isSome := by
  rcases h.commonSuperclass?_cases a b with ⟨c, hc, -⟩ | ⟨-, hhidden⟩
  · rw [hc, Option.isSome_some]
  · rcases ha with ha | ha
    · exact absurd (.inl ha) hhidden.unrelated.notRoot
    · exact absurd (.inl ha) hhidden.notInterface

theorem isSome_commonRefType? {s t : RefType} (hs : ∀ name, s.name? = some name → h.IsOpen name) :
    (h.commonRefType? s t).isSome := by
  unfold commonRefType?
  split
  · rfl
  split
  · next a b _ =>
    rw [Option.isSome_map]
    exact isSome_commonSuperclass? (hs a rfl)
  · next m a n b _ =>
    split
    · rw [Option.isSome_map]
      exact isSome_commonSuperclass? (hs a rfl)
    · rfl
  · rfl

/-- A common superclass is above the first class, or it is the root. Nothing is above the root. -/
theorem commonSuperclass?_above {a b c : String} (hc : h.commonSuperclass? a b = some c) :
    c = ClassName.object ∨ a ≠ ClassName.object ∧ h.IsBelow a c := by
  have above (hnot : ¬(a = ClassName.object ∨ b = ClassName.object)) (hac : h.IsBelow a c) :
      a ≠ ClassName.object ∧ h.IsBelow a c := ⟨fun ha => hnot (.inl ha), hac⟩
  cases meets_of_commonSuperclass? hc with
  | first _ => exact (em (a = ClassName.object)).imp_right fun ha => ⟨ha, .refl a⟩
  | second hroot _ hsub => exact (isBelow_of_isSubclass hsub).symm.imp_right (above hroot)
  | shared hun _ hshared => exact .inr (above hun.notRoot hshared.left.isBelow)
  | root | interface | apart => exact .inl rfl

theorem name?_rootArray {depth : Nat} {name : String}
    (hname : (rootArray depth).name? = some name) : name = ClassName.object := by
  cases depth <;> exact (Option.some.inj hname).symm

/-- The class of a common type is above that of the first type, or it is the root. -/
theorem commonRefType?_above {s t u : RefType} (hu : h.commonRefType? s t = some u) {c : String}
    (hc : u.name? = some c) :
    c = ClassName.object ∨
      ∃ a, s.name? = some a ∧ (a = c ∨ a ≠ ClassName.object ∧ h.IsBelow a c) := by
  unfold commonRefType? at hu
  split at hu
  · exact .inr ⟨c, Option.some.inj hu ▸ hc, .inl rfl⟩
  split at hu
  · next a b _ =>
    obtain ⟨d, hd, rfl⟩ := Option.map_eq_some_iff.mp hu
    obtain rfl := Option.some.inj hc
    exact (commonSuperclass?_above hd).imp_right fun habove => ⟨a, rfl, .inr habove⟩
  · next m a n b _ =>
    split at hu
    · obtain ⟨d, hd, rfl⟩ := Option.map_eq_some_iff.mp hu
      obtain rfl := Option.some.inj hc
      exact (commonSuperclass?_above hd).imp_right fun habove => ⟨a, rfl, .inr habove⟩
    · exact .inl (name?_rootArray (Option.some.inj hu ▸ hc))
  · exact .inl (name?_rootArray (Option.some.inj hu ▸ hc))

/-- A class and any other type have a class in common. -/
theorem commonRefType?_object {a : String} {t u : RefType}
    (hu : h.commonRefType? (.object a) t = some u) : ∃ c, u = .object c := by
  cases t with
  | object b =>
    unfold commonRefType? at hu
    split at hu
    · exact ⟨a, (Option.some.inj hu).symm⟩
    · obtain ⟨c, -, rfl⟩ := Option.map_eq_some_iff.mp hu
      exact ⟨c, rfl⟩
  | array extra element =>
    unfold commonRefType? at hu
    rw [if_neg RefType.noConfusion, referenceDepth, Nat.zero_min] at hu
    exact ⟨ClassName.object, (Option.some.inj hu).symm⟩

/-- The way up from a class is clear if only the root and interfaces are known above it; so it is
if nothing is known about the class. -/
theorem isClearAbove_of_outermost {name : String}
    (hname : ∀ {above : String}, h.IsBelow name above → above = name ∨ h.IsOpen above) :
    h.IsClearAbove scope (.object name) := by
  have hway : ∀ {s : RefType}, Relation.ReflTransGen (h.Widens scope) (.object name) s →
      ∃ c, s = .object c ∧ (c = ClassName.object ∨ h.IsBelow name c) := by
    intro s hs
    induction hs with
    | refl => exact ⟨name, rfl, .inr (.refl name)⟩
    | tail _ hstep ih =>
      obtain ⟨c, rfl, hc⟩ := ih
      obtain ⟨t, -, hu⟩ := hstep
      obtain ⟨d, rfl⟩ := commonRefType?_object hu
      refine ⟨d, rfl, ?_⟩
      rcases commonRefType?_above hu rfl with hroot | ⟨a, ha, hd⟩
      · exact .inl hroot
      · obtain rfl := Option.some.inj ha
        rcases hd with rfl | ⟨hne, hbelow⟩
        · exact hc
        · exact .inr ((hc.resolve_left hne).trans hbelow)
  intro s hs hne t _
  obtain ⟨c, rfl, hc⟩ := hway hs
  refine isSome_commonRefType? fun d hd => ?_
  obtain rfl := Option.some.inj hd
  rcases hc with hroot | hbelow
  · exact .inl hroot
  · exact (hname hbelow).resolve_left fun heq => hne (heq ▸ rfl)

end ClassText.Hierarchy
