import ClassText.Hierarchy.Common
import Mathlib.Logic.Relation

/-!
# The order of types

A class is below what its file names as its superclass or among its interfaces,
and below what those are below (`Hierarchy.IsBelow`). Arrays follow their
elements, and every array is below the root and below the shallower arrays of
the root (`Hierarchy.RefBelow`).

A common type is looked for by walks, which may end early. Whatever a walk finds
lies above the class from which it set out; and where all classes above are
known and the root is among what is above each of them (`Hierarchy.IsRooted`),
the search never gives up: its answer is above both types
(`commonRefType?_spec`).
-/

namespace ClassText

/-- The class that a type is made of. -/
def RefType.name? : RefType → Option String
  | .object name => some name
  | .array _ (.object name) => some name
  | .array _ (.base _) => none

namespace Hierarchy

variable {h : Hierarchy}

/-! ## Classes -/

/-- The first class names the second one as its superclass or as an interface. -/
def IsDirectlyBelow (h : Hierarchy) (sub super : String) : Prop :=
  ∃ info, h.resolve? sub = some info ∧ super ∈ info.supertypes

/-- The second class can be reached from the first one upwards, in any number of steps. -/
def IsBelow (h : Hierarchy) : String → String → Prop :=
  Relation.ReflTransGen h.IsDirectlyBelow

theorem IsBelow.refl (name : String) : h.IsBelow name name :=
  Relation.ReflTransGen.refl

theorem IsBelow.trans {a b c : String} (hab : h.IsBelow a b) (hbc : h.IsBelow b c) :
    h.IsBelow a c :=
  Relation.ReflTransGen.trans hab hbc

theorem IsBelow.step {a b : String} {info : ClassInfo} (hr : h.resolve? a = some info)
    (hb : b ∈ info.supertypes) : h.IsBelow a b :=
  Relation.ReflTransGen.single ⟨info, hr, hb⟩

/-- Everything above these names is known, and the root is above all of it. -/
structure IsRooted (h : Hierarchy) (names : String → Prop) : Prop where
  known : ∀ {name above : String}, names name → h.IsBelow name above →
    ∃ info, h.resolve? above = some info
  rooted : ∀ {name above : String}, names name → h.IsBelow name above →
    h.IsBelow above ClassName.object

/-- Names are rooted if they are among names that are known, lead only to each other, and lie below
the root. -/
theorem isRooted_of_closed {names : String → Prop} (closed : List String)
    (hnames : ∀ name, names name → name ∈ closed)
    (hknown : ∀ name ∈ closed, ∃ info, h.resolve? name = some info ∧
      ∀ super ∈ info.supertypes, super ∈ closed)
    (hroot : ∀ name ∈ closed, h.IsBelow name ClassName.object) : h.IsRooted names := by
  have hclosed {name above : String} (hname : name ∈ closed) (habove : h.IsBelow name above) :
      above ∈ closed := by
    induction habove with
    | refl => exact hname
    | tail _ hstep ih =>
      obtain ⟨info, hinfo, hsuper⟩ := hstep
      obtain ⟨other, hother, hall⟩ := hknown _ ih
      obtain rfl := Option.some.inj (hinfo.symm.trans hother)
      exact hall _ hsuper
  refine ⟨fun hname habove => ?_, fun hname habove => ?_⟩
  · obtain ⟨info, hinfo, -⟩ := hknown _ (hclosed (hnames _ hname) habove)
    exact ⟨info, hinfo⟩
  · exact hroot _ (hclosed (hnames _ hname) habove)

/-! ## What walks find -/

theorem isBelow_of_mem_above {toInterface : Bool} {name super : String}
    (hs : super ∈ h.above toInterface name) : h.IsBelow name super := by
  unfold above at hs
  split at hs
  · next info hr =>
    refine .step hr ?_
    split at hs
    · exact hs
    · exact List.mem_append_left _ hs
  · cases hs

/-- A walk that sets out from names above `a` stays above `a`. -/
theorem isBelow_of_mem_reach {toInterface : Bool} {a : String} :
    ∀ {rounds : Nat} {seen todo : List String}, (∀ s ∈ seen, h.IsBelow a s) →
      (∀ t ∈ todo, h.IsBelow a t) →
        ∀ b ∈ reach (h.above toInterface) rounds seen todo, h.IsBelow a b
  | 0, _, _, hseen, _ => hseen
  | _ + 1, _, [], hseen, _ => hseen
  | rounds + 1, seen, name :: todo, hseen, htodo => by
    rw [reach]
    have hfresh : ∀ s ∈ ((h.above toInterface name).filter (· ∉ seen)).eraseDups,
        h.IsBelow a s := by
      intro s hs
      rw [List.mem_eraseDups] at hs
      have habove := isBelow_of_mem_above (List.mem_filter.mp hs).1
      exact (htodo name List.mem_cons_self).trans habove
    refine isBelow_of_mem_reach ?_ ?_
    · intro s hs
      exact (List.mem_append.mp hs).elim (hseen s) (hfresh s)
    · intro t ht
      exact (List.mem_append.mp ht).elim (fun ht => htodo t (List.mem_cons_of_mem _ ht)) (hfresh t)

/-- What counts as below another class is below it, or the other one is the root. -/
theorem isBelow_of_isSubclass {sub super : String} (hs : h.isSubclass sub super = true) :
    h.IsBelow sub super ∨ super = ClassName.object := by
  simp only [isSubclass, Bool.or_eq_true, beq_iff_eq, List.contains_iff_mem] at hs
  rcases hs with (rfl | hroot) | hreach
  · exact .inl (.refl _)
  · exact .inr hroot
  · refine .inl (isBelow_of_mem_reach ?_ ?_ _ hreach) <;>
      exact fun s hs => List.mem_singleton.mp hs ▸ .refl _

/-- A chain holds only classes above the one where it begins, and it ends at a gap only if there
is one. -/
theorem chainFrom_spec {a : String} :
    ∀ {steps : Nat} {seen : List String} {name : String}, (∀ s ∈ seen, h.IsBelow a s) →
      h.IsBelow a name →
        (∀ b ∈ (h.chainFrom steps seen name).classes, h.IsBelow a b) ∧
          ((∀ {above : String}, h.IsBelow a above → ∃ info, h.resolve? above = some info) →
            (h.chainFrom steps seen name).complete = true)
  | 0, seen, name, hseen, hname => by
    refine ⟨fun b hb => ?_, fun _ => rfl⟩
    rcases List.mem_cons.mp (List.mem_reverse.mp hb) with rfl | hb
    · exact hname
    · exact hseen b hb
  | steps + 1, seen, name, hseen, hname => by
    have hcons : ∀ s ∈ name :: seen, h.IsBelow a s := by
      intro s hs
      rcases List.mem_cons.mp hs with rfl | hs
      · exact hname
      · exact hseen s hs
    have hend : ∀ s ∈ (name :: seen).reverse, h.IsBelow a s := fun s hs =>
      hcons s (List.mem_reverse.mp hs)
    rw [chainFrom]
    split
    · next hgap =>
      refine ⟨hend, fun hknown => ?_⟩
      obtain ⟨info, hinfo⟩ := hknown hname
      rw [hgap] at hinfo
      cases hinfo
    · next info hinfo =>
      split
      · next super hsuper =>
        split
        · exact ⟨hend, fun _ => rfl⟩
        · refine chainFrom_spec hcons (hname.trans (.step hinfo ?_))
          rw [ClassInfo.supertypes, hsuper]
          exact List.mem_append_left _ (by simp)
      · exact ⟨hend, fun _ => rfl⟩

theorem isBelow_of_mem_superclassChain {a b : String} (hb : b ∈ (h.superclassChain a).classes) :
    h.IsBelow a b :=
  (chainFrom_spec (by simp) (.refl _)).1 b hb

/-! ## Common classes -/

/-- The names that can stand in frames: the root, and what is above the names of a method. -/
def InScope (h : Hierarchy) (names : String → Prop) (name : String) : Prop :=
  name = ClassName.object ∨ ∃ origin, names origin ∧ h.IsBelow origin name

theorem InScope.above {names : String → Prop} {a b : String} (ha : h.InScope names a)
    (hne : a ≠ ClassName.object) (hab : h.IsBelow a b) : h.InScope names b := by
  rcases ha with ha | ⟨origin, horigin, hbelow⟩
  · exact absurd ha hne
  · exact .inr ⟨origin, horigin, hbelow.trans hab⟩

theorem InScope.rooted {names : String → Prop} {a : String} (hnames : h.IsRooted names)
    (ha : h.InScope names a) : h.IsBelow a ClassName.object := by
  rcases ha with rfl | ⟨origin, horigin, hbelow⟩
  · exact .refl _
  · exact hnames.rooted horigin hbelow

theorem InScope.complete {names : String → Prop} {a : String} (hnames : h.IsRooted names)
    (ha : h.InScope names a) (hne : a ≠ ClassName.object) :
    (h.superclassChain a).complete = true := by
  rcases ha with ha | ⟨origin, horigin, hbelow⟩
  · exact absurd ha hne
  · exact (chainFrom_spec (by simp) (.refl _)).2 fun hab =>
      hnames.known horigin (hbelow.trans hab)

/-- Two classes in scope have a common superclass, which is in scope. -/
theorem commonSuperclass?_spec {names : String → Prop} {a b : String} (hnames : h.IsRooted names)
    (ha : h.InScope names a) (hb : h.InScope names b) :
    ∃ c, h.commonSuperclass? a b = some c ∧ h.InScope names c ∧ h.IsBelow a c ∧
      h.IsBelow b c := by
  have hroot : h.InScope names ClassName.object := .inl rfl
  unfold commonSuperclass?
  split
  · next heq => exact ⟨a, rfl, ha, .refl _, heq ▸ .refl _⟩
  split
  · exact ⟨_, rfl, hroot, ha.rooted hnames, hb.rooted hnames⟩
  next hne =>
  rw [not_or] at hne
  split
  · next hsub =>
    have hba := (isBelow_of_isSubclass hsub).resolve_right hne.1
    exact ⟨a, rfl, ha, .refl _, hba⟩
  split
  · next hsub =>
    have hab := (isBelow_of_isSubclass hsub).resolve_right hne.2
    exact ⟨b, rfl, hb, hab, .refl _⟩
  split
  · exact ⟨_, rfl, hroot, ha.rooted hnames, hb.rooted hnames⟩
  dsimp only
  split
  · next common hfind =>
    have hca := isBelow_of_mem_superclassChain (List.mem_of_find?_eq_some hfind)
    have hother := List.find?_some hfind
    have hcb := isBelow_of_mem_superclassChain (of_decide_eq_true hother)
    exact ⟨common, rfl, ha.above hne.1 hca, hca, hcb⟩
  · rw [if_pos ⟨ha.complete hnames hne.1, hb.complete hnames hne.2⟩]
    exact ⟨_, rfl, hroot, ha.rooted hnames, hb.rooted hnames⟩

/-! ## Reference types -/

/-- The order of reference types. Arrays of primitive elements stand for themselves, and for
shallower arrays of the root. -/
inductive RefBelow (h : Hierarchy) : RefType → RefType → Prop
  | objects {a b : String} (hab : h.IsBelow a b) : RefBelow h (.object a) (.object b)
  | arrayRoot {extra : Nat} {element : ElementType} {b : String}
      (hb : h.IsBelow ClassName.object b) : RefBelow h (.array extra element) (.object b)
  | same {extra : Nat} {element : ElementType} :
      RefBelow h (.array extra element) (.array extra element)
  | elements {extra : Nat} {a b : String} (hab : h.IsBelow a b) :
      RefBelow h (.array extra (.object a)) (.array extra (.object b))
  | shallower {extra fewer : Nat} {element : ElementType} {b : String} (hlt : fewer < extra)
      (hb : h.IsBelow ClassName.object b) :
      RefBelow h (.array extra element) (.array fewer (.object b))

theorem RefBelow.refl (t : RefType) : h.RefBelow t t := by
  cases t with
  | object name => exact .objects (.refl name)
  | array extra element => exact .same

theorem RefBelow.trans {s t u : RefType} (hst : h.RefBelow s t) (htu : h.RefBelow t u) :
    h.RefBelow s u := by
  cases hst with
  | objects hab =>
    cases htu with
    | objects hbc => exact .objects (hab.trans hbc)
  | arrayRoot hb =>
    cases htu with
    | objects hbc => exact .arrayRoot (hb.trans hbc)
  | same => exact htu
  | elements hab =>
    cases htu with
    | arrayRoot hb => exact .arrayRoot hb
    | same => exact .elements hab
    | elements hbc => exact .elements (hab.trans hbc)
    | shallower hlt hb => exact .shallower hlt hb
  | shallower hlt hb =>
    cases htu with
    | arrayRoot hc => exact .arrayRoot hc
    | same => exact .shallower hlt hb
    | elements hbc => exact .shallower hlt (hb.trans hbc)
    | shallower hlt' hc => exact .shallower (Nat.lt_trans hlt' hlt) hc

/-- An array of the root covers all types that are at least as deep. -/
theorem refBelow_rootArray {names : String → Prop} (hnames : h.IsRooted names) {t : RefType}
    (ht : ∀ name, t.name? = some name → h.InScope names name) :
    ∀ {depth : Nat}, depth ≤ referenceDepth t → h.RefBelow t (rootArray depth)
  | 0, _ => by
    cases t with
    | object name => exact .objects ((ht name rfl).rooted hnames)
    | array extra element => exact .arrayRoot (.refl _)
  | depth + 1, hdepth => by
    match t, ht, hdepth with
    | .array extra (.base type), _, hdepth => exact .shallower hdepth (.refl _)
    | .array extra (.object name), ht, hdepth =>
      rcases Nat.lt_or_eq_of_le (Nat.le_of_succ_le_succ hdepth) with hlt | rfl
      · exact .shallower hlt (.refl _)
      · exact .elements ((ht name rfl).rooted hnames)

theorem inScope_rootArray {names : String → Prop} {depth : Nat} {name : String}
    (hname : (rootArray depth).name? = some name) : h.InScope names name := by
  cases depth with
  | zero => exact .inl (Option.some.inj hname).symm
  | succ depth => exact .inl (Option.some.inj hname).symm

/-- Two reference types in scope have a common type above both, which is in scope. -/
theorem commonRefType?_spec {names : String → Prop} {s t : RefType} (hnames : h.IsRooted names)
    (hs : ∀ name, s.name? = some name → h.InScope names name)
    (ht : ∀ name, t.name? = some name → h.InScope names name) :
    ∃ u, h.commonRefType? s t = some u ∧ (∀ name, u.name? = some name → h.InScope names name) ∧
      h.RefBelow s u ∧ h.RefBelow t u := by
  have hroot : ∃ u, some (rootArray (min (referenceDepth s) (referenceDepth t))) = some u ∧
      (∀ name, u.name? = some name → h.InScope names name) ∧ h.RefBelow s u ∧ h.RefBelow t u :=
    ⟨_, rfl, fun _ => inScope_rootArray, refBelow_rootArray hnames hs (Nat.min_le_left ..),
      refBelow_rootArray hnames ht (Nat.min_le_right ..)⟩
  unfold commonRefType?
  split
  · next heq => exact ⟨s, rfl, hs, .refl _, heq ▸ .refl _⟩
  split
  · next a b _ =>
    obtain ⟨c, hc, hscope, hac, hbc⟩ := commonSuperclass?_spec hnames (hs a rfl) (ht b rfl)
    refine ⟨.object c, by rw [hc]; rfl, ?_, .objects hac, .objects hbc⟩
    exact fun name hname => Option.some.inj hname ▸ hscope
  · next m a n b _ =>
    split
    · next heq =>
      subst heq
      obtain ⟨c, hc, hscope, hac, hbc⟩ := commonSuperclass?_spec hnames (hs a rfl) (ht b rfl)
      refine ⟨.array m (.object c), by rw [hc]; rfl, ?_, .elements hac, .elements hbc⟩
      exact fun name hname => Option.some.inj hname ▸ hscope
    · exact hroot
  · exact hroot

end Hierarchy

end ClassText
