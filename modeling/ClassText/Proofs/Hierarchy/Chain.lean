import ClassText.Proofs.Hierarchy.Reach

/-!
# Chains of superclasses

A class names one superclass at most, so all that is reached from it through
superclasses lies on one way, each class of it before or behind any other
(`Inherits.total`). The chain of a class is that way, from its beginning to its
end (`mem_superclassChain_iff`, `pairwise_superclassChain`), and it is complete
if no class on it is a gap (`complete_superclassChain_iff`). A class that stands
in a circle has the whole circle for its chain.
-/

namespace ClassText.Hierarchy

variable {h : Hierarchy} {a b c : String}

/-- The second class is the first one, or reached from it through superclasses. -/
def Inherits (h : Hierarchy) : String → String → Prop :=
  Relation.ReflTransGen (h.StepsTo false)

theorem Inherits.refl (name : String) : h.Inherits name name :=
  Relation.ReflTransGen.refl

theorem Inherits.trans (hab : h.Inherits a b) (hbc : h.Inherits b c) : h.Inherits a c :=
  Relation.ReflTransGen.trans hab hbc

theorem mem_above_false_iff : b ∈ h.above false a ↔
    ∃ info, h.resolve? a = some info ∧ info.superclass = some b := by
  unfold above
  cases h.resolve? a with
  | none => simp
  | some info => simp [Option.mem_toList]

/-- A walk to an interface also goes where a walk to superclasses does. -/
theorem mem_above_of_mem_above_false (toInterface : Bool) (hb : b ∈ h.above false a) :
    b ∈ h.above toInterface a := by
  obtain ⟨info, hinfo, hsuper⟩ := mem_above_false_iff.mp hb
  cases toInterface <;> simp [above, ClassInfo.supertypes, hinfo, hsuper]

theorem Inherits.steps (hab : h.Inherits a b) (toInterface : Bool) :
    Relation.ReflTransGen (h.StepsTo toInterface) a b :=
  Relation.ReflTransGen.mono (fun _ _ hb => mem_above_of_mem_above_false toInterface hb) a b hab

theorem Inherits.isBelow (hab : h.Inherits a b) : h.IsBelow a b :=
  mem_walk_true_iff.mp (mem_walk_iff.mpr (hab.steps true))

/-- A class counts as below those from which it inherits, whether these are known or not. -/
theorem Inherits.isSubclass (hab : h.Inherits a b) : h.isSubclass a b = true :=
  isSubclass_iff.mpr (.inr (mem_walk_iff.mpr (hab.steps _)))

theorem stepsTo_unique : Relator.RightUnique (h.StepsTo false) := by
  intro a b c hb hc
  obtain ⟨info, hinfo, hsuper⟩ := mem_above_false_iff.mp hb
  obtain ⟨other, hother, hsuper'⟩ := mem_above_false_iff.mp hc
  obtain rfl := Option.some.inj (hinfo.symm.trans hother)
  exact Option.some.inj (hsuper.symm.trans hsuper')

/-- Of two classes that are reached from one class, one is reached from the other. -/
theorem Inherits.total (hab : h.Inherits a b) (hac : h.Inherits a c) :
    h.Inherits b c ∨ h.Inherits c b :=
  Relation.ReflTransGen.total_of_right_unique stepsTo_unique hab hac

/-- A class from which others are reached is known. -/
theorem Inherits.known (hab : h.Inherits a b) (hne : b ≠ a) : (h.resolve? a).isSome := by
  rcases Relation.ReflTransGen.cases_head hab with heq | ⟨c, hstep, -⟩
  · exact absurd heq.symm hne
  · obtain ⟨info, hinfo, -⟩ := mem_above_false_iff.mp hstep
    rw [hinfo, Option.isSome_some]

/-! ## The classes of a chain -/

/-- The walk to superclasses finds one new name at most in each round. -/
theorem fresh_superclass {info : ClassInfo} (hinfo : h.resolve? a = some info)
    (hsuper : info.superclass = some b) (seen : List String) :
    ((h.above false a).filter (· ∉ seen)).eraseDups = if b ∈ seen then [] else [b] := by
  have habove : h.above false a = [b] := by simp [above, hinfo, hsuper]
  rw [habove]
  by_cases hseen : b ∈ seen
  · simp [hseen]
  · rw [if_neg hseen, List.filter_cons_of_pos (by simpa using hseen)]
    rfl

theorem reach_nil (next : String → List String) (rounds : Nat) (seen : List String) :
    reach next rounds seen [] = seen := by
  cases rounds <;> rfl

/-- A chain takes the steps of the walk to superclasses. -/
theorem classes_chainFrom : ∀ (steps : Nat) (seen : List String) (name : String),
    (h.chainFrom steps seen name).classes =
      reach (h.above false) steps (name :: seen).reverse [name]
  | 0, _, _ => rfl
  | steps + 1, seen, name => by
    rw [chainFrom, reach]
    cases hinfo : h.resolve? name with
    | none => simp [above, hinfo, reach_nil]
    | some info =>
      dsimp only
      cases hsuper : info.superclass with
      | none => simp [above, hinfo, hsuper, reach_nil]
      | some super =>
        rw [fresh_superclass hinfo hsuper]
        simp only [List.mem_reverse]
        split
        · simp [reach_nil]
        · rw [classes_chainFrom steps (name :: seen) super, List.reverse_cons]
          rfl

theorem classes_superclassChain (h : Hierarchy) (name : String) :
    (h.superclassChain name).classes = h.walk false name :=
  classes_chainFrom h.stepLimit [] name

theorem mem_superclassChain_iff : b ∈ (h.superclassChain a).classes ↔ h.Inherits a b := by
  rw [classes_superclassChain, mem_walk_iff, Inherits]

theorem pairwise_chainFrom : ∀ {steps : Nat} {seen : List String} {name : String},
    (name :: seen).reverse.Pairwise h.Inherits →
      (h.chainFrom steps seen name).classes.Pairwise h.Inherits
  | 0, _, _, hseen => hseen
  | steps + 1, seen, name, hseen => by
    rw [chainFrom]
    split
    · exact hseen
    · next info hinfo =>
      split
      · next super hsuper =>
        split
        · exact hseen
        · refine pairwise_chainFrom ?_
          have hstep : h.Inherits name super :=
            .single (mem_above_false_iff.mpr ⟨info, hinfo, hsuper⟩)
          have hname : ∀ s ∈ (name :: seen).reverse, h.Inherits s name := by
            rw [List.reverse_cons, List.pairwise_append] at hseen
            intro s hs
            rcases List.mem_cons.mp (List.mem_reverse.mp hs) with rfl | hs
            · exact .refl _
            · exact hseen.2.2 s (List.mem_reverse.mpr hs) name (List.mem_singleton_self name)
          rw [List.reverse_cons, List.pairwise_append]
          refine ⟨hseen, List.pairwise_singleton _ _, fun s hs b hb => ?_⟩
          exact List.mem_singleton.mp hb ▸ (hname s hs).trans hstep
      · exact hseen

/-- On a chain, a class is followed by those that are reached from it. -/
theorem pairwise_superclassChain (h : Hierarchy) (name : String) :
    (h.superclassChain name).classes.Pairwise h.Inherits :=
  pairwise_chainFrom (List.pairwise_singleton _ _)

/-- The first class on a chain that satisfies a condition comes before all others that do. -/
theorem inherits_of_find? {p : String → Bool}
    (hfind : (h.superclassChain a).classes.find? p = some b) (hac : h.Inherits a c)
    (hc : p c = true) : h.Inherits b c := by
  obtain ⟨-, before, behind, hsplit, hbefore⟩ := List.find?_eq_some_iff_append.mp hfind
  have hpairwise := h.pairwise_superclassChain a
  have hmem := mem_superclassChain_iff.mpr hac
  rw [hsplit] at hpairwise hmem
  rcases List.mem_append.mp hmem with hmem | hmem
  · have hnot := hbefore c hmem
    rw [hc] at hnot
    cases hnot
  · rcases List.mem_cons.mp hmem with rfl | hmem
    · exact .refl _
    · have htail := (List.pairwise_append.mp hpairwise).2.1
      exact List.rel_of_pairwise_cons htail hmem

/-! ## The end of a chain -/

theorem complete_chainFrom {names : List String}
    (hnames : ∀ s b, b ∈ h.above false s → b ∈ names) {steps : Nat} {seen : List String}
    {name : String}
    (hwalking : Walking (h.above false) names steps (name :: seen).reverse [name])
    (hseen : ∀ s ∈ seen, (h.resolve? s).isSome) :
    (h.chainFrom steps seen name).complete = true ↔
      ∀ s ∈ (h.chainFrom steps seen name).classes, (h.resolve? s).isSome := by
  induction steps generalizing seen name with
  | zero =>
    -- The steps are enough, so they are not used up while a name is left to step from.
    cases hwalking.todo_eq_nil
  | succ steps ih =>
    rw [chainFrom]
    split
    · next hgap =>
      constructor
      · intro hfalse
        cases hfalse
      · intro hall
        have hname := hall name (List.mem_reverse.mpr List.mem_cons_self)
        rw [hgap] at hname
        cases hname
    · next info hinfo =>
      have hcons : ∀ s ∈ name :: seen, (h.resolve? s).isSome := by
        refine List.forall_mem_cons.mpr ⟨?_, hseen⟩
        rw [hinfo, Option.isSome_some]
      have hend : ∀ s ∈ (name :: seen).reverse, (h.resolve? s).isSome := fun s hs =>
        hcons s (List.mem_reverse.mp hs)
      split
      · next super hsuper =>
        split
        · exact ⟨fun _ => hend, fun _ => rfl⟩
        · next hnew =>
          refine ih ?_ hcons
          have hround := hwalking.round fun b hb => hnames name b hb
          rw [fresh_superclass hinfo hsuper, if_neg (by rwa [List.mem_reverse])] at hround
          rwa [List.reverse_cons]
      · exact ⟨fun _ => hend, fun _ => rfl⟩

/-- A chain is complete if it goes over no gap. -/
theorem complete_superclassChain_iff : (h.superclassChain a).complete = true ↔
    ∀ b, h.Inherits a b → (h.resolve? b).isSome := by
  rw [superclassChain, complete_chainFrom
    (fun _ _ hb => List.mem_cons_of_mem _ (mem_supertypes_of_mem_above hb))
    (h.walking_start false a) (by simp)]
  exact forall_congr' fun b => imp_congr_left mem_superclassChain_iff

/-- If a chain is complete from some class of it on, all of it is. -/
theorem Inherits.complete (hab : h.Inherits a b) (hb : (h.superclassChain b).complete = true) :
    (h.superclassChain a).complete = true := by
  rw [complete_superclassChain_iff] at hb ⊢
  intro c hac
  rcases hab.total hac with hbc | hcb
  · exact hb c hbc
  · by_cases heq : b = c
    · exact hb c (heq ▸ .refl b)
    · exact hcb.known heq

/-- For a class that is no interface, to count as below it is to inherit from it. -/
theorem isSubclass_iff_inherits {sub super : String} (hclass : h.isInterface super = false)
    (hne : super ≠ ClassName.object) : h.isSubclass sub super = true ↔ h.Inherits sub super := by
  rw [isSubclass_iff, hclass, mem_walk_iff, Inherits]
  exact ⟨fun hs => hs.resolve_left hne, .inr⟩

end ClassText.Hierarchy
