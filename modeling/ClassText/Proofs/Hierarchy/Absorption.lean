import ClassText.Proofs.Hierarchy.Meeting

/-!
# Common types absorb both sides

The type that two types have in common is above both of them, in the sense in
which a hierarchy answers: each of them counts as below it
(`isSubclass_of_commonSuperclass?`). A class has itself in common with everything
that counts as below it, so what was merged once stays as it is when either side
is merged into it again (`commonRefType?_absorbs`).

No order is needed for that. Where classes extend one another in a circle each of
them counts as below the other, and the answer depends on which one comes first;
it absorbs both all the same.
-/

namespace ClassText.Hierarchy

variable {h : Hierarchy} {a b c : String}

/-! ## Classes -/

theorem commonSuperclass?_self (h : Hierarchy) (a : String) : h.commonSuperclass? a a = some a :=
  if_pos rfl

/-- All that the root has in common with a class is itself. -/
theorem commonSuperclass?_of_root (hroot : a = ClassName.object ∨ b = ClassName.object) :
    h.commonSuperclass? a b = some ClassName.object := by
  by_cases heq : a = b
  · subst heq
    rw [commonSuperclass?_self, hroot.elim id id]
  · rw [commonSuperclass?, if_neg heq, if_pos hroot]

/-- A class is what it has in common with a class that counts as below it, unless that is the
root. -/
theorem commonSuperclass?_of_isSubclass (hsub : h.isSubclass b a = true)
    (hroot : b = ClassName.object → a = ClassName.object) : h.commonSuperclass? a b = some a := by
  by_cases ha : a = ClassName.object
  · rw [commonSuperclass?_of_root (.inl ha), ha]
  by_cases heq : a = b
  · rw [heq, commonSuperclass?_self]
  · rw [commonSuperclass?, if_neg heq, if_neg (not_or.mpr ⟨ha, fun hb => ha (hroot hb)⟩),
      if_pos hsub]

theorem isSubclass_root (h : Hierarchy) (name : String) :
    h.isSubclass name ClassName.object = true :=
  isSubclass_iff.mpr (.inl rfl)

/-- Both classes count as below what they have in common. -/
theorem isSubclass_of_commonSuperclass? (hc : h.commonSuperclass? a b = some c) :
    h.isSubclass a c = true ∧ h.isSubclass b c = true := by
  have hself (name : String) : h.isSubclass name name = true := (Inherits.refl name).isSubclass
  have hroot : h.isSubclass a ClassName.object = true ∧ h.isSubclass b ClassName.object = true :=
    ⟨h.isSubclass_root a, h.isSubclass_root b⟩
  cases meets_of_commonSuperclass? hc with
  | first hsub => exact ⟨hself a, hsub⟩
  | second _ _ hsub => exact ⟨hsub, hself b⟩
  | shared _ _ hshared => exact ⟨hshared.left.isSubclass, hshared.right.isSubclass⟩
  | root | interface | apart => exact hroot

theorem commonSuperclass?_absorbs (hc : h.commonSuperclass? a b = some c) :
    h.commonSuperclass? c a = some c ∧ h.commonSuperclass? c b = some c := by
  obtain ⟨ha, hb⟩ := isSubclass_of_commonSuperclass? hc
  have hroot (hab : a = ClassName.object ∨ b = ClassName.object) : c = ClassName.object :=
    Option.some.inj (hc.symm.trans (commonSuperclass?_of_root hab))
  exact ⟨commonSuperclass?_of_isSubclass ha fun h => hroot (.inl h),
    commonSuperclass?_of_isSubclass hb fun h => hroot (.inr h)⟩

/-! ## Reference types -/

variable {s t u : RefType}

theorem commonRefType?_self (h : Hierarchy) (t : RefType) : h.commonRefType? t t = some t :=
  if_pos rfl

theorem commonRefType?_objects (h : Hierarchy) (a b : String) :
    h.commonRefType? (.object a) (.object b) = (h.commonSuperclass? a b).map .object := by
  unfold commonRefType?
  split
  · next heq =>
    obtain rfl := RefType.object.inj heq
    rw [commonSuperclass?_self, Option.map_some]
  · rfl

/-- Arrays of classes that have the same depth have in common what their elements have. -/
theorem commonRefType?_arrays (h : Hierarchy) (extra : Nat) (a b : String) :
    h.commonRefType? (.array extra (.object a)) (.array extra (.object b)) =
      (h.commonSuperclass? a b).map fun name => .array extra (.object name) := by
  unfold commonRefType?
  split
  · next heq =>
    obtain rfl := ElementType.object.inj (RefType.array.inj heq).2
    rw [commonSuperclass?_self, Option.map_some]
  · exact if_pos rfl

/-- An array of the root is what it has in common with every type that is at least as deep. -/
theorem commonRefType?_rootArray {depth : Nat} (hdepth : depth ≤ referenceDepth t) :
    h.commonRefType? (rootArray depth) t = some (rootArray depth) := by
  match depth, t, hdepth with
  | 0, .object name, _ =>
    rw [rootArray, commonRefType?_objects, commonSuperclass?_of_root (.inl rfl), Option.map_some]
  | 0, .array extra element, _ =>
    unfold commonRefType?
    rw [rootArray, if_neg RefType.noConfusion, referenceDepth, Nat.zero_min, rootArray]
  | depth + 1, .array extra (.object name), hdepth =>
    by_cases heq : depth = extra
    · rw [heq, rootArray, commonRefType?_arrays, commonSuperclass?_of_root (.inl rfl),
        Option.map_some]
    · unfold commonRefType?
      rw [rootArray, if_neg fun hsame => heq (RefType.array.inj hsame).1]
      dsimp only
      rw [if_neg heq, referenceDepth, Nat.min_eq_left hdepth, rootArray]
  | depth + 1, .array extra (.base type), hdepth =>
    unfold commonRefType?
    rw [rootArray, if_neg fun hsame => ElementType.noConfusion (RefType.array.inj hsame).2]
    dsimp only
    rw [referenceDepth, Nat.min_eq_left hdepth, rootArray]

/-- Either of two types can be merged into what they have in common, and changes nothing. -/
theorem commonRefType?_absorbs (hu : h.commonRefType? s t = some u) :
    h.commonRefType? u s = some u ∧ h.commonRefType? u t = some u := by
  have hroot (heq : some (rootArray (min (referenceDepth s) (referenceDepth t))) = some u) :
      h.commonRefType? u s = some u ∧ h.commonRefType? u t = some u :=
    Option.some.inj heq ▸ ⟨commonRefType?_rootArray (Nat.min_le_left ..),
      commonRefType?_rootArray (Nat.min_le_right ..)⟩
  unfold commonRefType? at hu
  split at hu
  · next heq =>
    subst heq
    exact Option.some.inj hu ▸ ⟨commonRefType?_self h s, commonRefType?_self h s⟩
  split at hu
  · next a b _ =>
    obtain ⟨c, hc, rfl⟩ := Option.map_eq_some_iff.mp hu
    obtain ⟨hca, hcb⟩ := commonSuperclass?_absorbs hc
    rw [commonRefType?_objects, commonRefType?_objects, hca, hcb]
    exact ⟨rfl, rfl⟩
  · next m a n b _ =>
    split at hu
    · next heq =>
      subst heq
      obtain ⟨c, hc, rfl⟩ := Option.map_eq_some_iff.mp hu
      obtain ⟨hca, hcb⟩ := commonSuperclass?_absorbs hc
      rw [commonRefType?_arrays, commonRefType?_arrays, hca, hcb]
      exact ⟨rfl, rfl⟩
    · exact hroot hu
  · exact hroot hu

/-- Two classes in a circle, and a class that extends each of them. -/
def circle : Hierarchy :=
  ⟨[⟨"A", some "B", [], false⟩, ⟨"B", some "A", [], false⟩, ⟨"C", some "A", [], false⟩,
    ⟨"D", some "B", [], false⟩], []⟩

/-- Which class of the circle is the common one depends on the order. It absorbs both sides. -/
theorem commonRefType?_absorbs_circle :
    circle.commonRefType? (.array 1 (.object "C")) (.array 1 (.object "D")) =
        some (.array 1 (.object "A")) ∧
      circle.commonRefType? (.array 1 (.object "D")) (.array 1 (.object "C")) =
        some (.array 1 (.object "B")) ∧
      circle.commonRefType? (.array 1 (.object "A")) (.array 1 (.object "C")) =
        some (.array 1 (.object "A")) ∧
      circle.commonRefType? (.array 1 (.object "A")) (.array 1 (.object "D")) =
        some (.array 1 (.object "A")) := by
  have hleft : circle.commonRefType? (.array 1 (.object "C")) (.array 1 (.object "D")) =
      some (.array 1 (.object "A")) := by decide +kernel
  have hright : circle.commonRefType? (.array 1 (.object "D")) (.array 1 (.object "C")) =
      some (.array 1 (.object "B")) := by decide +kernel
  exact ⟨hleft, hright, commonRefType?_absorbs hleft⟩

end ClassText.Hierarchy
