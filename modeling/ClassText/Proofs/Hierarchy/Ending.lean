import ClassText.Hierarchy.Common
import ClassText.Proofs.Hierarchy.Chain
import Mathlib.Data.List.Chain
import Mathlib.Data.PFun

/-!
# Walks end

A walk has a limit of steps so that it is sure to end, but it does not need one.
Here are the walks that go on for as long as there is something left to do, as
partial functions: a search for a class, which stops where it finds it and looks
first at the names it met last, and the climb from a class to its superclass.
Both end in every hierarchy, however its classes refer to each other, and so
does the search for a common superclass that is made of them. They give the
answers of the walks with a limit (`walks_end`).

What decreases is the number of names that were not met yet, together with the
names that were met and not looked at; `Walking` keeps count of both.
-/

namespace ClassText

/-- Take steps until one of them gives a result. There is none if no step ever does. -/
def takeSteps {σ α : Type} (step : σ → α ⊕ σ) : σ → Part α :=
  PFun.fix fun s => Part.some (step s)

section takeSteps

variable {σ α : Type} {step : σ → α ⊕ σ} {s t : σ} {a : α}

theorem takeSteps_of_inl (h : step s = .inl a) : takeSteps step s = Part.some a :=
  Part.eq_some_iff.mpr (PFun.fix_stop (Part.mem_some_iff.mpr h.symm))

theorem takeSteps_of_inr (h : step s = .inr t) : takeSteps step s = takeSteps step t :=
  PFun.fix_fwd_eq (Part.mem_some_iff.mpr h.symm)

end takeSteps

namespace Hierarchy

variable {h : Hierarchy} {toInterface : Bool} {sub super name start : String}

/-! ## Walks without a limit -/

/-- The names that a search has met, and those among them that it has not looked at, the next one
first. -/
structure Search where
  met : List String
  todo : List String

/-- Look at one name, and meet what is above it. -/
def searchStep (h : Hierarchy) (toInterface : Bool) (super : String) (s : Search) :
    Bool ⊕ Search :=
  match s.todo with
  | [] => .inl false
  | name :: todo =>
    if name = super then .inl true
    else
      let fresh := ((h.above toInterface name).filter (· ∉ s.met)).eraseDups
      .inr ⟨s.met ++ fresh, fresh.reverse ++ todo⟩

def search (h : Hierarchy) (sub super : String) : Part Bool :=
  if sub = super ∨ super = ClassName.object then pure true
  else takeSteps (h.searchStep (h.isInterface super) super) ⟨[sub], [sub]⟩

/-- Go from a class to its superclass. The classes before it are kept in reverse. -/
def climbStep (h : Hierarchy) (s : List String × String) :
    SuperclassChain ⊕ List String × String :=
  let seen := s.2 :: s.1
  match h.resolve? s.2 with
  | none => .inl ⟨seen.reverse, false⟩
  | some info =>
    match info.superclass with
    | some super => if super ∈ seen then .inl ⟨seen.reverse, true⟩ else .inr (seen, super)
    | none => .inl ⟨seen.reverse, true⟩

def climb (h : Hierarchy) (name : String) : Part SuperclassChain :=
  takeSteps h.climbStep ([], name)

def findCommon (h : Hierarchy) (a b : String) : Part (Option String) := do
  if a = b then return some a
  if a = ClassName.object ∨ b = ClassName.object then return some ClassName.object
  if ← h.search b a then return some a
  if ← h.search a b then return some b
  if h.isInterface a ∨ h.isInterface b then return some ClassName.object
  let chain ← h.climb a
  let other ← h.climb b
  match chain.classes.find? (· ∈ other.classes) with
  | some common => return some common
  | none => return if chain.complete ∧ other.complete then some ClassName.object else none

/-! ## Searches end -/

/-- The order in which names are looked at does not matter for the count. -/
theorem Walking.perm {next : String → List String} {names seen todo todo' : List String}
    {rounds : Nat} (h : Walking next names rounds seen todo) (hperm : todo.Perm todo') :
    Walking next names rounds seen todo' where
  nodup := h.nodup
  bounded := h.bounded
  left t ht := h.left t (hperm.mem_iff.mpr ht)
  stepped s hs := (h.stepped s hs).imp_left hperm.mem_iff.mp
  enough := hperm.length_eq ▸ h.enough

/-- Everything that a search has met can be reached, and it has not looked at what it searches
for. -/
structure Searching (h : Hierarchy) (toInterface : Bool) (sub super : String) (rounds : Nat)
    (s : Search) : Prop where
  walking : Walking (h.above toInterface) (sub :: h.known.flatMap (·.supertypes)) rounds s.met
    s.todo
  started : sub ∈ s.met
  reached : ∀ name ∈ s.met, Relation.ReflTransGen (h.StepsTo toInterface) sub name
  missed : super ∈ s.met → super ∈ s.todo

theorem Searching.not_mem_walk {rounds : Nat} {s : Search}
    (hs : h.Searching toInterface sub super rounds s) (htodo : s.todo = []) :
    super ∉ h.walk toInterface sub := by
  intro hwalk
  -- The search has looked at all names that it met, so it has met all that can be reached.
  have hmet {b : String} (hb : Relation.ReflTransGen (h.StepsTo toInterface) sub b) :
      b ∈ s.met := by
    induction hb with
    | refl => exact hs.started
    | tail _ hstep ih =>
      have hstepped := hs.walking.stepped _ ih
      rw [htodo] at hstepped
      exact hstepped.resolve_left List.not_mem_nil _ hstep
  have hleft := hs.missed (hmet (mem_walk_iff.mp hwalk))
  rw [htodo] at hleft
  cases hleft

theorem Searching.next {rounds : Nat} {s : Search} {todo : List String}
    (hs : h.Searching toInterface sub super (rounds + 1) s) (htodo : s.todo = name :: todo)
    (hne : name ≠ super) :
    h.Searching toInterface sub super rounds
      ⟨s.met ++ ((h.above toInterface name).filter (· ∉ s.met)).eraseDups,
        ((h.above toInterface name).filter (· ∉ s.met)).eraseDups.reverse ++ todo⟩ where
  walking := by
    have hround := (htodo ▸ hs.walking).round fun b hb =>
      List.mem_cons_of_mem _ (mem_supertypes_of_mem_above hb)
    exact hround.perm (List.perm_append_comm.trans ((List.reverse_perm _).symm.append_right todo))
  started := List.mem_append_left _ hs.started
  reached b hb := by
    rcases List.mem_append.mp hb with hb | hb
    · exact hs.reached b hb
    · have hname : name ∈ s.met := hs.walking.left name (htodo ▸ List.mem_cons_self)
      exact (hs.reached name hname).tail (List.mem_filter.mp (List.mem_eraseDups.mp hb)).1
  missed hsuper := by
    rcases List.mem_append.mp hsuper with hmet | hfresh
    · have hleft := hs.missed hmet
      rw [htodo] at hleft
      exact List.mem_append_right _ ((List.mem_cons.mp hleft).resolve_left hne.symm)
    · exact List.mem_append_left _ (List.mem_reverse.mpr hfresh)

theorem takeSteps_searchStep {rounds : Nat} {s : Search}
    (hs : h.Searching toInterface sub super rounds s) :
    takeSteps (h.searchStep toInterface super) s =
      Part.some (decide (super ∈ h.walk toInterface sub)) := by
  induction rounds generalizing s with
  | zero =>
    have htodo := hs.walking.todo_eq_nil
    rw [decide_eq_false (hs.not_mem_walk htodo)]
    exact takeSteps_of_inl (by rw [searchStep, htodo])
  | succ rounds ih =>
    cases htodo : s.todo with
    | nil =>
      rw [decide_eq_false (hs.not_mem_walk htodo)]
      exact takeSteps_of_inl (by rw [searchStep, htodo])
    | cons name todo =>
      by_cases heq : name = super
      · have hreached := hs.reached name (hs.walking.left name (htodo ▸ List.mem_cons_self))
        rw [decide_eq_true (mem_walk_iff.mpr (heq ▸ hreached))]
        exact takeSteps_of_inl (by rw [searchStep, htodo]; exact if_pos heq)
      · rw [← ih (hs.next htodo heq)]
        exact takeSteps_of_inr (by rw [searchStep, htodo]; exact if_neg heq)

theorem searching_start (h : Hierarchy) (toInterface : Bool) (sub super : String) :
    h.Searching toInterface sub super h.stepLimit ⟨[sub], [sub]⟩ where
  walking := h.walking_start toInterface sub
  started := List.mem_cons_self
  reached _ hb := List.mem_singleton.mp hb ▸ .refl
  missed := id

theorem search_eq (h : Hierarchy) (sub super : String) :
    h.search sub super = Part.some (h.isSubclass sub super) := by
  have hiff : h.isSubclass sub super = true ↔ _ := isSubclass_iff
  unfold search
  split
  · next heq =>
    rw [hiff.mpr]
    · rfl
    · exact heq.elim (fun heq => .inr (heq ▸ (h.walk_closed _ _).1)) .inl
  · next hne =>
    rw [not_or] at hne
    rw [takeSteps_searchStep (h.searching_start _ sub super), Part.some_inj,
      Bool.eq_iff_iff, hiff, decide_eq_true_iff]
    exact (or_iff_right hne.2).symm

/-! ## Climbs end -/

/-- A step of a climb is a round of the walk to superclasses. -/
theorem Walking.climb {steps : Nat} {seen : List String} {info : ClassInfo}
    (hwalking : Walking (h.above false) (start :: h.known.flatMap (·.supertypes)) (steps + 1)
      (name :: seen).reverse [name])
    (hinfo : h.resolve? name = some info) (hsuper : info.superclass = some super)
    (hnew : super ∉ name :: seen) :
    Walking (h.above false) (start :: h.known.flatMap (·.supertypes)) steps
      (super :: name :: seen).reverse [super] := by
  have hround := hwalking.round fun b hb =>
    List.mem_cons_of_mem _ (mem_supertypes_of_mem_above hb)
  rwa [fresh_superclass hinfo hsuper, if_neg (by rwa [List.mem_reverse]),
    ← List.reverse_cons] at hround

theorem takeSteps_climbStep {steps : Nat} {seen : List String}
    (hwalking : Walking (h.above false) (start :: h.known.flatMap (·.supertypes)) steps
      (name :: seen).reverse [name]) :
    takeSteps h.climbStep (seen, name) = Part.some (h.chainFrom steps seen name) := by
  induction steps generalizing seen name with
  | zero => cases hwalking.todo_eq_nil
  | succ steps ih =>
    rw [chainFrom]
    split
    · next hgap => exact takeSteps_of_inl (by simp only [climbStep, hgap])
    · next info hinfo =>
      split
      · next super hsuper =>
        split
        · next hseen =>
          exact takeSteps_of_inl (by simp only [climbStep, hinfo, hsuper, if_pos hseen])
        · next hnew =>
          rw [← ih (hwalking.climb hinfo hsuper hnew)]
          exact takeSteps_of_inr (by simp only [climbStep, hinfo, hsuper, if_neg hnew])
      · next hnone => exact takeSteps_of_inl (by simp only [climbStep, hinfo, hnone])

theorem climb_eq (h : Hierarchy) (name : String) :
    h.climb name = Part.some (h.superclassChain name) :=
  takeSteps_climbStep (h.walking_start false name)

theorem findCommon_eq (h : Hierarchy) (a b : String) :
    h.findCommon a b = Part.some (h.commonSuperclass? a b) := by
  unfold findCommon commonSuperclass?
  simp only [search_eq, climb_eq, Part.bind_eq_bind, Part.bind_some]
  cases (h.superclassChain a).classes.find? (· ∈ (h.superclassChain b).classes) <;> dsimp only
  all_goals
    repeat' split
    all_goals rfl

/-! ## What a chain is -/

/-- The class is known, and names this superclass. -/
def Extends (h : Hierarchy) (sub super : String) : Prop :=
  ∃ info, h.resolve? sub = some info ∧ info.superclass = some super

theorem extends_iff {info : ClassInfo} (hinfo : h.resolve? sub = some info) :
    h.Extends sub super ↔ info.superclass = some super := by
  constructor
  · rintro ⟨other, hother, hsuper⟩
    obtain rfl := Option.some.inj (hother.symm.trans hinfo)
    exact hsuper
  · exact fun hsuper => ⟨info, hinfo, hsuper⟩

/-- The chain begins with the class, goes from class to superclass, and takes no class twice. It
goes as far as that is possible, and is complete unless it ends with a class that is not known. -/
structure IsChainOf (h : Hierarchy) (name : String) (chain : SuperclassChain) : Prop where
  head : chain.classes.head? = some name
  nodup : chain.classes.Nodup
  links : chain.classes.IsChain h.Extends
  incomplete : chain.complete = false ↔
    ∃ last, chain.classes.getLast? = some last ∧ h.resolve? last = none
  ends : ∀ last super, chain.classes.getLast? = some last → h.Extends last super →
    super ∈ chain.classes

/-- What is known of a chain while it is made, the last class of it and those before it in
reverse. -/
structure Climbing (h : Hierarchy) (start name : String) (seen : List String) : Prop where
  head : (name :: seen).getLast? = some start
  nodup : (name :: seen).Nodup
  links : (name :: seen).IsChain fun super sub => h.Extends sub super

theorem Climbing.next {seen : List String} (hclimb : h.Climbing start name seen)
    (hsuper : h.Extends name super) (hnew : super ∉ name :: seen) :
    h.Climbing start super (name :: seen) where
  head := hclimb.head
  nodup := List.nodup_cons.mpr ⟨hnew, hclimb.nodup⟩
  links := List.isChain_cons_cons.mpr ⟨hsuper, hclimb.links⟩

theorem Climbing.isChainOf {seen : List String} (hclimb : h.Climbing start name seen)
    {complete : Bool} (hcomplete : complete = (h.resolve? name).isSome)
    (hends : ∀ super, h.Extends name super → super ∈ name :: seen) :
    h.IsChainOf start ⟨(name :: seen).reverse, complete⟩ where
  head := by rw [List.head?_reverse, hclimb.head]
  nodup := List.nodup_reverse.mpr hclimb.nodup
  links := List.isChain_reverse.mpr hclimb.links
  incomplete := by
    rw [List.getLast?_reverse, List.head?_cons]
    simp [hcomplete]
  ends last super hlast hsuper := by
    rw [List.getLast?_reverse, List.head?_cons, Option.some.injEq] at hlast
    exact List.mem_reverse.mpr (hends super (hlast ▸ hsuper))

theorem isChainOf_chainFrom {steps : Nat} {seen : List String}
    (hwalking : Walking (h.above false) (start :: h.known.flatMap (·.supertypes)) steps
      (name :: seen).reverse [name])
    (hclimb : h.Climbing start name seen) :
    h.IsChainOf start (h.chainFrom steps seen name) := by
  induction steps generalizing seen name with
  | zero => cases hwalking.todo_eq_nil
  | succ steps ih =>
    rw [chainFrom]
    split
    · next hgap =>
      refine hclimb.isChainOf (by rw [hgap]; rfl) ?_
      rintro super ⟨info, hinfo, -⟩
      rw [hgap] at hinfo
      cases hinfo
    · next info hinfo =>
      have hcomplete : true = (h.resolve? name).isSome := by rw [hinfo]; rfl
      split
      · next super hsuper =>
        split
        · next hseen =>
          refine hclimb.isChainOf hcomplete fun other hother => ?_
          have hother := (extends_iff hinfo).mp hother
          exact Option.some.inj (hsuper.symm.trans hother) ▸ hseen
        · next hnew =>
          refine ih ?_ (hclimb.next ((extends_iff hinfo).mpr hsuper) hnew)
          exact hwalking.climb hinfo hsuper hnew
      · next hnone =>
        refine hclimb.isChainOf hcomplete fun other hother => ?_
        have hother := (extends_iff hinfo).mp hother
        rw [hnone] at hother
        cases hother

theorem isChainOf_superclassChain (h : Hierarchy) (name : String) :
    h.IsChainOf name (h.superclassChain name) :=
  isChainOf_chainFrom (h.walking_start false name)
    ⟨rfl, List.nodup_singleton name, .singleton name⟩

/-! ## The end of all walks -/

/-- In every hierarchy the walks without a limit end, with what is answered under the limit. A
chain of superclasses is one whatever the classes of the hierarchy refer to. -/
theorem walks_end (h : Hierarchy) :
    (∀ sub super, h.search sub super = Part.some (h.isSubclass sub super)) ∧
      (∀ name, h.climb name = Part.some (h.superclassChain name) ∧
        h.IsChainOf name (h.superclassChain name)) ∧
      ∀ a b, h.findCommon a b = Part.some (h.commonSuperclass? a b) :=
  ⟨h.search_eq, fun name => ⟨h.climb_eq name, h.isChainOf_superclassChain name⟩, h.findCommon_eq⟩

end Hierarchy

end ClassText
