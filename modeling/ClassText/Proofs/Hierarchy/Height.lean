import ClassText.Proofs.Hierarchy.Meeting

/-!
# Common types are less high

Every class has a height: how many names are above it, an interface counting a
little less than a class, and then how many superclasses follow. The type that
two types have in common is less high than the first one, unless it is the first
one itself (`refHeight_lt`). That holds in any hierarchy. Where classes are above
one another in a circle, the same names are above all of them; then the class
that the other one can walk to is the answer, and only a step from a class to an
interface of the circle, or to where its superclasses lead without return, is
ever made.
-/

namespace ClassText.Hierarchy

variable {h : Hierarchy} {a b c : String}

/-! ## Classes -/

/-- All names above a class. -/
def upper (h : Hierarchy) (name : String) : Finset String :=
  (h.walk true name).toFinset

/-- A class and its superclasses. -/
def path (h : Hierarchy) (name : String) : Finset String :=
  (h.walk false name).toFinset

theorem mem_upper : b ∈ h.upper a ↔ h.IsBelow a b := by
  rw [upper, List.mem_toFinset, mem_walk_true_iff]

theorem mem_path : b ∈ h.path a ↔ Relation.ReflTransGen (h.StepsTo false) a b := by
  rw [path, List.mem_toFinset, mem_walk_iff]

theorem upper_subset (hab : h.IsBelow a b) : h.upper b ⊆ h.upper a := fun _ hc =>
  mem_upper.mpr (hab.trans (mem_upper.mp hc))

theorem path_subset (hb : b ∈ h.path a) : h.path b ⊆ h.path a := fun _ hc =>
  mem_path.mpr ((mem_path.mp hb).trans (mem_path.mp hc))

/-- Superclasses are among the names that some class stands below. -/
theorem card_path_le (h : Hierarchy) (name : String) : (h.path name).card ≤ h.stepLimit := by
  have hsubset : h.path name ⊆ (name :: h.known.flatMap (·.supertypes)).toFinset := by
    intro b hb
    rw [List.mem_toFinset]
    cases mem_path.mp hb with
    | refl => exact List.mem_cons_self
    | tail _ hstep => exact List.mem_cons_of_mem _ (mem_supertypes_of_mem_above hstep)
  have hcard := Finset.card_le_card hsubset
  have hlength := List.toFinset_card_le (name :: h.known.flatMap (·.supertypes))
  rw [List.length_cons] at hlength
  rw [stepLimit]
  omega

/-- How many names are above a class. An interface counts a little less. -/
def breadth (h : Hierarchy) (name : String) : Nat :=
  2 * (h.upper name).card + if h.isInterface name then 0 else 1

/-- How far it is from a class to the root. -/
def height (h : Hierarchy) (name : String) : Nat :=
  if name = ClassName.object then 0
  else h.breadth name * (h.stepLimit + 1) + (h.path name).card

theorem height_object : h.height ClassName.object = 0 := if_pos rfl

theorem height_pos (hne : a ≠ ClassName.object) : 0 < h.height a := by
  have hself : a ∈ h.path a := mem_path.mpr .refl
  have hcard := Finset.card_pos.mpr ⟨a, hself⟩
  rw [height, if_neg hne]
  omega

/-- Classes that are less broad are less high, whatever their superclasses. -/
theorem height_lt_of_breadth (ha : a ≠ ClassName.object) (hc : c ≠ ClassName.object)
    (h1 : h.breadth c < h.breadth a ∨
      h.breadth c = h.breadth a ∧ (h.path c).card < (h.path a).card) :
    h.height c < h.height a := by
  rw [height, height, if_neg ha, if_neg hc]
  rcases h1 with hlt | ⟨heq, hlt⟩
  · have hle := h.card_path_le c
    calc h.breadth c * (h.stepLimit + 1) + (h.path c).card
        < h.breadth c * (h.stepLimit + 1) + (h.stepLimit + 1) := by omega
      _ = (h.breadth c + 1) * (h.stepLimit + 1) := by rw [Nat.add_mul, Nat.one_mul]
      _ ≤ h.breadth a * (h.stepLimit + 1) := Nat.mul_le_mul_right _ hlt
      _ ≤ h.breadth a * (h.stepLimit + 1) + (h.path a).card := Nat.le_add_right _ _
  · rw [heq]
    omega

/-- A class above another one is less high, if only the right steps are made in circles: from a
class, either to an interface or to superclasses that do not lead back. -/
theorem height_lt_of_isBelow (ha : a ≠ ClassName.object) (hac : h.IsBelow a c)
    (hcircle : h.IsBelow c a → h.isInterface a = false ∧
      (h.isInterface c = true ∨ c ∈ h.path a ∧ a ∉ h.path c)) :
    h.height c < h.height a := by
  by_cases hc : c = ClassName.object
  · rw [hc, height_object]
    exact height_pos ha
  refine height_lt_of_breadth ha hc ?_
  by_cases hca : h.IsBelow c a
  · have hupper : h.upper c = h.upper a := (upper_subset hac).antisymm (upper_subset hca)
    obtain ⟨hclass, hstep⟩ := hcircle hca
    rw [breadth, breadth, hupper, hclass]
    cases hinterface : h.isInterface c with
    | true => exact .inl (Nat.lt_succ_self _)
    | false =>
      rw [hinterface] at hstep
      obtain ⟨hpath, hback⟩ := hstep.resolve_left Bool.false_ne_true
      have hself : a ∈ h.path a := mem_path.mpr .refl
      exact .inr ⟨rfl, Finset.card_lt_card
        (Finset.ssubset_iff_of_subset (path_subset hpath) |>.mpr ⟨a, hself, hback⟩)⟩
  · have hself : a ∈ h.upper a := mem_upper.mpr (.refl a)
    have hlt := Finset.card_lt_card (Finset.ssubset_iff_of_subset (upper_subset hac) |>.mpr
      ⟨a, hself, fun hback => hca (mem_upper.mp hback)⟩)
    left
    rw [breadth, breadth]
    split <;> split <;> omega

/-- A common superclass is less high than the first class, or it is that class. -/
theorem height_lt (hc : h.commonSuperclass? a b = some c) (hne : c ≠ a) :
    h.height c < h.height a := by
  have hroot : c = ClassName.object → h.height c < h.height a := by
    rintro rfl
    rw [height_object]
    exact height_pos hne.symm
  -- A class that counts as below the first one is found by the walk to it.
  have hmem {toInterface : Bool} (hback : ¬h.isSubclass b a = true)
      (heq : h.isInterface a = toInterface) : a ∉ h.walk toInterface b := fun hmem =>
    hback (isSubclass_iff.mpr (.inr (heq ▸ hmem)))
  cases meets_of_commonSuperclass? hc with
  | first _ => exact absurd rfl hne
  | second hnroot hback hsub =>
    rw [not_or] at hnroot
    have hwalk := (isSubclass_iff.mp hsub).resolve_left hnroot.2
    refine height_lt_of_isBelow hnroot.1 ((isBelow_of_isSubclass hsub).resolve_right hnroot.2) ?_
    intro hba
    cases hinterface : h.isInterface a with
    | true => exact absurd (mem_walk_true_iff.mpr hba) (hmem hback hinterface)
    | false =>
      refine ⟨rfl, ?_⟩
      cases hinterface' : h.isInterface b with
      | true => exact .inl rfl
      | false =>
        rw [hinterface'] at hwalk
        exact .inr ⟨List.mem_toFinset.mpr hwalk,
          fun hpath => hmem hback hinterface (List.mem_toFinset.mp hpath)⟩
  | shared hun hkind hshared =>
    rw [not_or, Bool.not_eq_true] at hkind
    refine height_lt_of_isBelow (fun ha => hun.notRoot (.inl ha)) hshared.left.isBelow fun _ =>
      ⟨hkind.1, .inr ⟨mem_path.mpr hshared.left, fun hpath => ?_⟩⟩
    exact hun.notAbove (hshared.right.trans (mem_path.mp hpath)).isSubclass
  | root | interface | apart => exact hroot rfl

/-! ## Reference types -/

def refHeight (h : Hierarchy) : RefType → Nat
  | .object name => h.height name
  | .array extra (.object name) => extra + 1 + h.height name
  | .array extra (.base _) => extra + 1

theorem refHeight_rootArray (depth : Nat) : h.refHeight (rootArray depth) = depth := by
  cases depth with
  | zero => exact height_object
  | succ extra => rw [rootArray, refHeight, height_object]

/-- A type is higher than the arrays of the root that cover it. -/
theorem referenceDepth_le (s : RefType) :
    referenceDepth s < h.refHeight s ∨ s = rootArray (referenceDepth s) := by
  match s with
  | .object name =>
    by_cases hname : name = ClassName.object
    · exact .inr (by rw [hname]; rfl)
    · exact .inl (height_pos hname)
  | .array extra (.object name) =>
    by_cases hname : name = ClassName.object
    · exact .inr (by rw [hname]; rfl)
    · have hpos := height_pos (h := h) hname
      left
      rw [referenceDepth, refHeight]
      omega
  | .array extra (.base type) => exact .inl (Nat.lt_succ_self _)

theorem refHeight_rootArray_lt {s : RefType} {depth : Nat} (hle : depth ≤ referenceDepth s)
    (hne : rootArray depth ≠ s) : h.refHeight (rootArray depth) < h.refHeight s := by
  rw [refHeight_rootArray]
  rcases referenceDepth_le (h := h) s with hlt | heq
  · omega
  · have hdepth : depth ≠ referenceDepth s := fun hdepth => hne (hdepth ▸ heq.symm)
    have hheight : h.refHeight s = referenceDepth s := by
      rw [heq, refHeight_rootArray, ← heq]
    omega

/-- A common type is less high than the first type, or it is that type. -/
theorem refHeight_lt {s t u : RefType} (hu : h.commonRefType? s t = some u) (hne : u ≠ s) :
    h.refHeight u < h.refHeight s := by
  have hroot (heq : some (rootArray (min (referenceDepth s) (referenceDepth t))) = some u) :
      h.refHeight u < h.refHeight s := by
    obtain rfl := Option.some.inj heq
    exact refHeight_rootArray_lt (Nat.min_le_left _ _) hne
  unfold commonRefType? at hu
  split at hu
  · exact absurd (Option.some.inj hu).symm hne
  split at hu
  · next a b _ =>
    obtain ⟨c, hc, rfl⟩ := Option.map_eq_some_iff.mp hu
    exact height_lt hc fun heq => hne (heq ▸ rfl)
  · next m a n b _ =>
    split at hu
    · obtain ⟨c, hc, rfl⟩ := Option.map_eq_some_iff.mp hu
      have hlt := height_lt hc fun heq => hne (heq ▸ rfl)
      rw [refHeight, refHeight]
      omega
    · exact hroot hu
  · exact hroot hu

theorem refHeight_pos {s : RefType} (hne : s ≠ .object ClassName.object) : 0 < h.refHeight s := by
  match s with
  | .object name => exact height_pos fun heq => hne (heq ▸ rfl)
  | .array extra (.object name) =>
    exact Nat.lt_of_lt_of_le (Nat.succ_pos extra) (Nat.le_add_right _ _)
  | .array extra (.base type) => exact Nat.succ_pos extra

end ClassText.Hierarchy
