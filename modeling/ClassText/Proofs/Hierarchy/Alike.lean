import ClassText.Hierarchy.Common
import Mathlib.Data.List.Find
import Mathlib.Data.List.Nodup

/-!
# Hierarchies that give the same answers

Everything that is asked of a hierarchy comes down to what a name resolves to, and
to the number of steps after which walks are given up. Two hierarchies that agree
on these (`Hierarchy.Alike`) agree on every common type.

Classes can be added in any order if no two of them have one name
(`alike_foldl_add`): those whose names were free are there in the end, after the
classes from before.
-/

namespace ClassText.Hierarchy

/-- Names resolve to the same classes, and walks are given up after as many steps. -/
structure Alike (h h' : Hierarchy) : Prop where
  resolve? : ∀ name, h.resolve? name = h'.resolve? name
  stepLimit : h.stepLimit = h'.stepLimit

/-! ## The same answers -/

namespace Alike

variable {h h' : Hierarchy}

theorem symm (halike : h.Alike h') : h'.Alike h :=
  ⟨fun name => (halike.resolve? name).symm, halike.stepLimit.symm⟩

theorem isInterface (halike : h.Alike h') (name : String) :
    h.isInterface name = h'.isInterface name := by
  rw [Hierarchy.isInterface, Hierarchy.isInterface, halike.resolve?]

theorem above (halike : h.Alike h') (toInterface : Bool) :
    h.above toInterface = h'.above toInterface := by
  funext name
  rw [Hierarchy.above, Hierarchy.above, halike.resolve?]

theorem chainFrom (halike : h.Alike h') (steps : Nat) (seen : List String) (name : String) :
    h.chainFrom steps seen name = h'.chainFrom steps seen name := by
  induction steps generalizing seen name with
  | zero => rfl
  | succ steps ih => simp only [Hierarchy.chainFrom, halike.resolve?, ih]

theorem superclassChain (halike : h.Alike h') (name : String) :
    h.superclassChain name = h'.superclassChain name := by
  rw [Hierarchy.superclassChain, Hierarchy.superclassChain, halike.stepLimit, halike.chainFrom]

theorem isSubclass (halike : h.Alike h') (sub super : String) :
    h.isSubclass sub super = h'.isSubclass sub super := by
  rw [Hierarchy.isSubclass, Hierarchy.isSubclass, halike.isInterface, halike.above,
    halike.stepLimit]

theorem commonSuperclass? (halike : h.Alike h') (a b : String) :
    h.commonSuperclass? a b = h'.commonSuperclass? a b := by
  simp only [Hierarchy.commonSuperclass?, halike.isSubclass, halike.isInterface,
    halike.superclassChain]

theorem commonRefType? (halike : h.Alike h') (s t : RefType) :
    h.commonRefType? s t = h'.commonRefType? s t := by
  simp only [Hierarchy.commonRefType?, halike.commonSuperclass?]

end Alike

/-! ## Classes in another order -/

variable {h : Hierarchy} {infos infos' : List ClassInfo}

/-- The classes whose names are free. -/
def unknownOf (h : Hierarchy) (infos : List ClassInfo) : List ClassInfo :=
  infos.filter fun info => !h.classes.any (·.name == info.name)

theorem foldl_add (hnames : infos.Pairwise (·.name ≠ ·.name)) :
    infos.foldl add h = { h with classes := h.classes ++ h.unknownOf infos } := by
  induction infos generalizing h with
  | nil => rw [unknownOf, List.filter_nil, List.append_nil, List.foldl_nil]
  | cons info infos ih =>
    obtain ⟨hfirst, hrest⟩ := List.pairwise_cons.mp hnames
    rw [List.foldl_cons, ih hrest]
    cases hknown : h.classes.any (·.name == info.name) with
    | true =>
      have hadd : h.add info = h := if_pos hknown
      have hunknown : h.unknownOf (info :: infos) = h.unknownOf infos :=
        List.filter_cons_of_neg (by rw [hknown]; exact Bool.false_ne_true)
      rw [hadd, hunknown]
    | false =>
      have hadd : h.add info = { h with classes := h.classes ++ [info] } :=
        if_neg (by rw [hknown]; exact Bool.false_ne_true)
      have hunknown : h.unknownOf (info :: infos) = info :: h.unknownOf infos :=
        List.filter_cons_of_pos (by rw [hknown]; rfl)
      -- the class that was added has none of the names that are still to come
      have hsame : (h.add info).unknownOf infos = h.unknownOf infos := by
        refine List.filter_congr fun other hother => ?_
        have hne : (info.name == other.name) = false := beq_false_of_ne (hfirst other hother)
        rw [hadd, List.any_append, List.any_cons, List.any_nil, hne, Bool.or_false, Bool.or_false]
      rw [hsame, hadd, hunknown, List.append_assoc, List.singleton_append]

/-- It does not matter in which order classes are added that have names of their own. -/
theorem alike_foldl_add (hnames : infos.Pairwise (·.name ≠ ·.name)) (hperm : infos.Perm infos') :
    (infos.foldl add h).Alike (infos'.foldl add h) := by
  have hnew : (h.unknownOf infos).Perm (h.unknownOf infos') := hperm.filter _
  rw [foldl_add hnames, foldl_add (hperm.pairwise hnames fun h => h.symm)]
  constructor
  · intro name
    have hsubsingleton : {info ∈ h.unknownOf infos | info.name == name}.Subsingleton := by
      rintro a ⟨ha, haname⟩ b ⟨hb, hbname⟩
      have hnodup : (infos.map (·.name)).Nodup := List.pairwise_map.mpr hnames
      refine List.inj_on_of_nodup_map hnodup (List.mem_filter.mp ha).1 (List.mem_filter.mp hb).1 ?_
      rw [eq_of_beq haname, eq_of_beq hbname]
    rw [resolve?, resolve?, List.find?_append, List.find?_append,
      List.find?_eq_find?_of_perm hnew hsubsingleton]
  · have hknown := ((hnew.append_left h.classes).append_right (h.library.map (·.2))).flatMap_right
      ClassInfo.supertypes
    exact congrArg (· + 1) hknown.length_eq

end ClassText.Hierarchy
