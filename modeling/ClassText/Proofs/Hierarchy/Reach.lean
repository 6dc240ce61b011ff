import ClassText.Proofs.Hierarchy.Order
import Mathlib.Data.Finset.Card
import Mathlib.Data.List.Perm.Subperm

/-!
# Walks reach everything

A walk through a hierarchy makes no more steps than its limit. Every round of it
makes one step, from a name that was reached and never comes again; and besides
the class where the walk begins, only names that some class stands below can be
reached. So the limit is never met before the walk is over, and a walk finds all
there is to find (`mem_walk_iff`), in a hierarchy with circles as well.
-/

namespace ClassText.Hierarchy

variable {h : Hierarchy} {toInterface : Bool}

/-! ## Rounds of a walk -/

theorem nodup_eraseDups : ∀ names : List String, names.eraseDups.Nodup
  | [] => List.nodup_nil
  | name :: names => by
    rw [List.eraseDups_cons]
    refine List.nodup_cons.mpr ⟨?_, nodup_eraseDups _⟩
    rw [List.mem_eraseDups, List.mem_filter]
    simp
termination_by names => names.length
decreasing_by exact Nat.lt_succ_of_le (List.length_filter_le _ _)

/-- What a walk has reached, and what it still has to step from: it has made a step from all the
rest, and there are rounds enough for what is left. -/
structure Walking (next : String → List String) (names : List String) (rounds : Nat)
    (seen todo : List String) : Prop where
  nodup : seen.Nodup
  bounded : ∀ s ∈ seen, s ∈ names
  left : ∀ t ∈ todo, t ∈ seen
  stepped : ∀ s ∈ seen, s ∈ todo ∨ ∀ b ∈ next s, b ∈ seen
  enough : names.length + todo.length ≤ rounds + seen.length

variable {next : String → List String} {names : List String}

theorem Walking.round {rounds : Nat} {seen todo : List String} {name : String}
    (h : Walking next names (rounds + 1) seen (name :: todo))
    (hnext : ∀ b ∈ next name, b ∈ names) :
    Walking next names rounds (seen ++ ((next name).filter (· ∉ seen)).eraseDups)
      (todo ++ ((next name).filter (· ∉ seen)).eraseDups) := by
  have hfresh : ∀ {b : String}, b ∈ ((next name).filter (· ∉ seen)).eraseDups ↔
      b ∈ next name ∧ b ∉ seen := by
    intro b
    rw [List.mem_eraseDups, List.mem_filter, decide_eq_true_eq]
  refine ⟨?_, ?_, ?_, ?_, ?_⟩
  · refine List.nodup_append.mpr ⟨h.nodup, nodup_eraseDups _, ?_⟩
    rintro s hs t ht rfl
    exact (hfresh.mp ht).2 hs
  · intro s hs
    rcases List.mem_append.mp hs with hs | hs
    · exact h.bounded s hs
    · exact hnext s (hfresh.mp hs).1
  · intro t ht
    rcases List.mem_append.mp ht with ht | ht
    · exact List.mem_append_left _ (h.left t (List.mem_cons_of_mem _ ht))
    · exact List.mem_append_right _ ht
  · intro s hs
    rcases List.mem_append.mp hs with hs | hs
    · rcases h.stepped s hs with hs | hs
      · rcases List.mem_cons.mp hs with rfl | hs
        · refine .inr fun b hb => ?_
          by_cases hseen : b ∈ seen
          · exact List.mem_append_left _ hseen
          · exact List.mem_append_right _ (hfresh.mpr ⟨hb, hseen⟩)
        · exact .inl (List.mem_append_left _ hs)
      · exact .inr fun b hb => List.mem_append_left _ (hs b hb)
    · exact .inl (List.mem_append_right _ hs)
  · have hrounds := h.enough
    rw [List.length_cons] at hrounds
    rw [List.length_append, List.length_append]
    omega

/-- Where no rounds are left, no names are. -/
theorem Walking.todo_eq_nil {seen todo : List String} (h : Walking next names 0 seen todo) :
    todo = [] := by
  have hle := (List.subperm_of_subset h.nodup h.bounded).length_le
  have henough := h.enough
  exact List.eq_nil_of_length_eq_zero (by omega)

/-- A walk with rounds enough ends with names that lead only to each other. -/
theorem reach_closed (hnext : ∀ s ∈ names, ∀ b ∈ next s, b ∈ names) :
    ∀ {rounds : Nat} {seen todo : List String}, Walking next names rounds seen todo →
      (∀ s ∈ seen, s ∈ reach next rounds seen todo) ∧
        ∀ s ∈ reach next rounds seen todo, ∀ b ∈ next s, b ∈ reach next rounds seen todo
  | 0, seen, todo, h => by
    obtain rfl := h.todo_eq_nil
    exact ⟨fun _ => id, fun s hs => (h.stepped s hs).resolve_left List.not_mem_nil⟩
  | _ + 1, seen, [], h => ⟨fun _ => id, fun s hs => (h.stepped s hs).resolve_left List.not_mem_nil⟩
  | rounds + 1, seen, name :: todo, h => by
    have hname := h.bounded name (h.left name List.mem_cons_self)
    obtain ⟨hseen, hclosed⟩ := reach_closed hnext (h.round (hnext name hname))
    rw [reach]
    exact ⟨fun s hs => hseen s (List.mem_append_left _ hs), hclosed⟩

/-! ## Walks up a hierarchy -/

/-- One step of a walk. -/
def StepsTo (h : Hierarchy) (toInterface : Bool) (sub super : String) : Prop :=
  super ∈ h.above toInterface sub

/-- All that a walk finds. -/
def walk (h : Hierarchy) (toInterface : Bool) (name : String) : List String :=
  reach (h.above toInterface) h.stepLimit [name] [name]

theorem mem_supertypes_of_mem_above {name super : String} (hs : super ∈ h.above toInterface name) :
    super ∈ h.known.flatMap (·.supertypes) := by
  unfold above at hs
  split at hs
  · next info hinfo =>
    refine List.mem_flatMap.mpr ⟨info, mem_known_of_resolve? hinfo, ?_⟩
    split at hs
    · exact hs
    · exact List.mem_append_left _ hs
  · cases hs

/-- A walk has rounds enough when it sets out. -/
theorem walking_start (h : Hierarchy) (toInterface : Bool) (name : String) :
    Walking (h.above toInterface) (name :: h.known.flatMap (·.supertypes)) h.stepLimit
      [name] [name] := by
  refine ⟨List.nodup_singleton name, ?_, fun _ => id, fun _ => .inl, ?_⟩
  · exact fun s hs => List.mem_singleton.mp hs ▸ List.mem_cons_self
  · rw [List.length_cons, stepLimit]

theorem walk_closed (h : Hierarchy) (toInterface : Bool) (name : String) :
    name ∈ h.walk toInterface name ∧
      ∀ s ∈ h.walk toInterface name, ∀ b ∈ h.above toInterface s, b ∈ h.walk toInterface name := by
  obtain ⟨hseen, hclosed⟩ := reach_closed
    (fun s _ b hb => List.mem_cons_of_mem _ (mem_supertypes_of_mem_above hb))
    (h.walking_start toInterface name)
  exact ⟨hseen name List.mem_cons_self, hclosed⟩

/-- A walk only goes where steps lead. -/
theorem steps_of_mem_reach {a : String} : ∀ {rounds : Nat} {seen todo : List String},
    (∀ s ∈ seen, Relation.ReflTransGen (h.StepsTo toInterface) a s) →
      (∀ t ∈ todo, Relation.ReflTransGen (h.StepsTo toInterface) a t) →
        ∀ b ∈ reach (h.above toInterface) rounds seen todo,
          Relation.ReflTransGen (h.StepsTo toInterface) a b
  | 0, _, _, hseen, _ => hseen
  | _ + 1, _, [], hseen, _ => hseen
  | rounds + 1, seen, name :: todo, hseen, htodo => by
    rw [reach]
    have hfresh : ∀ s ∈ ((h.above toInterface name).filter (· ∉ seen)).eraseDups,
        Relation.ReflTransGen (h.StepsTo toInterface) a s := by
      intro s hs
      rw [List.mem_eraseDups] at hs
      exact (htodo name List.mem_cons_self).tail (List.mem_filter.mp hs).1
    refine steps_of_mem_reach ?_ ?_
    · exact fun s hs => (List.mem_append.mp hs).elim (hseen s) (hfresh s)
    · exact fun t ht => (List.mem_append.mp ht).elim
        (fun ht => htodo t (List.mem_cons_of_mem _ ht)) (hfresh t)

/-- A walk finds exactly what some steps lead to. -/
theorem mem_walk_iff {a b : String} :
    b ∈ h.walk toInterface a ↔ Relation.ReflTransGen (h.StepsTo toInterface) a b := by
  constructor
  · exact steps_of_mem_reach (fun s hs => List.mem_singleton.mp hs ▸ .refl)
      (fun t ht => List.mem_singleton.mp ht ▸ .refl) b
  · intro hsteps
    obtain ⟨hname, hclosed⟩ := h.walk_closed toInterface a
    induction hsteps with
    | refl => exact hname
    | tail _ hstep ih => exact hclosed _ ih _ hstep

theorem stepsTo_true (h : Hierarchy) : h.StepsTo true = h.IsDirectlyBelow := by
  funext a b
  refine propext ?_
  rw [StepsTo, IsDirectlyBelow, above]
  split
  · next info hinfo =>
    constructor
    · exact fun hb => ⟨info, hinfo, hb⟩
    · rintro ⟨other, hother, hb⟩
      obtain rfl := Option.some.inj (hinfo.symm.trans hother)
      exact hb
  · next hnone =>
    constructor
    · exact fun hb => (nomatch hb)
    · rintro ⟨other, hother, -⟩
      rw [hnone] at hother
      cases hother

/-- The walk to an interface finds all that is above a class. -/
theorem mem_walk_true_iff {a b : String} : b ∈ h.walk true a ↔ h.IsBelow a b := by
  rw [mem_walk_iff, IsBelow, stepsTo_true]

/-- What the two kinds of walks find decides whether one class counts as below another. -/
theorem isSubclass_iff {sub super : String} :
    h.isSubclass sub super = true ↔
      super = ClassName.object ∨ super ∈ h.walk (h.isInterface super) sub := by
  simp only [isSubclass, Bool.or_eq_true, beq_iff_eq, List.contains_iff_mem]
  constructor
  · rintro ((rfl | hroot) | hreach)
    · exact .inr (h.walk_closed _ _).1
    · exact .inl hroot
    · exact .inr hreach
  · rintro (hroot | hreach)
    · exact .inl (.inr hroot)
    · exact .inr hreach

end ClassText.Hierarchy
