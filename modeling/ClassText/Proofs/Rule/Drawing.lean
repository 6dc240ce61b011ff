import ClassText.Proofs.Success
import ClassText.Rule.Rewrite

/-!
# Rules that draw nothing

Words are drawn one after the other and counted (`Draws.Counts`). So if as many have
been drawn in the end as in the beginning, none of them was looked at on the way, and
the result is the same for all random words. This is why it is enough to say of rules
that the words are left as they were (`Rules.DrawNothing`): a policy that would draw may
well be among them, if its key cannot be in what the rules before it have made.
-/

namespace ClassText

namespace Draws

variable {α β : Type}

theorem run_bind (x : Drawing α) (f : α → Drawing β) (draws : Draws) :
    (x >>= f) draws = f (x draws).1 (x draws).2 := rfl

theorem run_pure (a : α) (draws : Draws) : (pure a : Drawing α) draws = (a, draws) := rfl

theorem length_mapM (f : α → Drawing β) :
    ∀ (items : List α) (draws : Draws), (items.mapM f draws).1.length = items.length
  | [], _ => rfl
  | a :: items, draws => by
    rw [List.mapM_cons, run_bind, run_bind, run_pure, List.length_cons, length_mapM f items,
      List.length_cons]

/-- Results that draw random words are found in stages: each of them draws from what the one before
has left. -/
theorem mapM_stages {f : α → Drawing β} :
    ∀ (items : List α) (draws : Draws), ∃ stage : Nat → Draws, stage 0 = draws ∧
      ∀ k a, items[k]? = some a → (items.mapM f draws).1[k]? = some (f a (stage k)).1 ∧
        stage (k + 1) = (f a (stage k)).2
  | [], draws => ⟨fun _ => draws, rfl, by simp⟩
  | a :: items, draws => by
    obtain ⟨stage, hfirst, hrest⟩ := mapM_stages (f := f) items (f a draws).2
    refine ⟨fun k => k.casesOn draws stage, rfl, fun k b hb => ?_⟩
    rw [List.mapM_cons]
    simp only [run_bind, run_pure]
    cases k with
    | zero =>
      obtain rfl := Option.some.inj hb
      exact ⟨rfl, hfirst⟩
    | succ k => exact hrest k b hb

/-- Nothing is drawn for the result, and it is the same for all random words. -/
def Spares (x : Drawing α) : Prop :=
  ∀ draws draws', x draws' = ((x draws).1, draws')

theorem spares_pure (a : α) : Spares (pure a) := fun _ _ => rfl

theorem Spares.bind {x : Drawing α} {f : α → Drawing β} (h : Spares x)
    (hnext : ∀ a, Spares (f a)) : Spares (x >>= f) := by
  intro draws draws'
  rw [run_bind, run_bind, h draws draws']
  exact hnext (x draws).1 (x draws).2 draws'

theorem spares_mapM {f : α → Drawing β} {items : List α} (h : ∀ a ∈ items, Spares (f a)) :
    Spares (items.mapM f) :=
  Success.mapM_closed (P := fun _ => Spares) spares_pure Spares.bind h

theorem spares_foldlM {f : β → α → Drawing β} {items : List α} (b : β)
    (h : ∀ a ∈ items, ∀ b, Spares (f b a)) : Spares (items.foldlM f b) :=
  Success.foldlM_closed (P := fun _ => Spares) spares_pure Spares.bind b h

/-- Results for which nothing is drawn are found one by one. -/
theorem mapM_of_spares {f : α → Drawing β} (h : ∀ a, Spares (f a)) (draws draws' : Draws) :
    ∀ items : List α, (items.mapM f draws).1 = items.map fun a => (f a draws').1
  | [] => rfl
  | a :: items => by
    rw [List.mapM_cons, run_bind, run_bind, run_pure, h a draws' draws, List.map_cons,
      mapM_of_spares h draws draws' items]

/-- The number of words that were drawn never falls, and if it is the same as before, the result
does not depend on them. -/
def Counts (x : Drawing α) : Prop :=
  ∀ draws, draws.drawn ≤ (x draws).2.drawn ∧
    ((x draws).2.drawn = draws.drawn → ∀ draws', x draws' = ((x draws).1, draws'))

theorem counts_draw : Counts draw :=
  fun draws => ⟨Nat.le_succ _, fun h => absurd h (Nat.succ_ne_self draws.drawn)⟩

theorem counts_pure (a : α) : Counts (pure a) := fun _ => ⟨Nat.le_refl _, fun _ _ => rfl⟩

theorem Counts.bind {x : Drawing α} {f : α → Drawing β} (h : Counts x)
    (hnext : ∀ a, Counts (f a)) : Counts (x >>= f) := by
  intro draws
  rw [run_bind]
  obtain ⟨hle, hsame⟩ := h draws
  obtain ⟨hle', hsame'⟩ := hnext (x draws).1 (x draws).2
  refine ⟨Nat.le_trans hle hle', fun heq draws' => ?_⟩
  -- neither of the two has drawn a word
  have hfirst : (x draws).2.drawn = draws.drawn := Nat.le_antisymm (heq ▸ hle') hle
  rw [run_bind, hsame hfirst draws', hsame' (heq.trans hfirst.symm) draws']

theorem counts_mapM {f : α → Drawing β} {items : List α} (h : ∀ a ∈ items, Counts (f a)) :
    Counts (items.mapM f) :=
  Success.mapM_closed (P := fun _ => Counts) counts_pure Counts.bind h

theorem counts_foldlM {f : β → α → Drawing β} {items : List α} (b : β)
    (h : ∀ a ∈ items, ∀ b, Counts (f b a)) : Counts (items.foldlM f b) :=
  Success.foldlM_closed (P := fun _ => Counts) counts_pure Counts.bind b h

/-- What counts its words and always leaves them as they were spares them. -/
theorem Counts.spares {x : Drawing α} (h : Counts x) (hleft : ∀ draws, (x draws).2 = draws) :
    Spares x :=
  fun draws => (h draws).2 (congrArg drawn (hleft draws))

end Draws

open Draws

theorem Policy.counts_replacement (policy : Policy) (key : String) :
    Counts (policy.replacement key) := by
  cases policy with
  | literal text => exact counts_pure text
  | randomInt => exact counts_draw.bind fun _ => counts_pure _
  | origOrFixed fixed p =>
    rw [replacement]
    split
    · exact counts_pure fixed
    · exact counts_draw.bind fun _ => counts_pure _

theorem Rewrite.counts_apply (rule : Rule) (current : Rewrite) : Counts (apply rule current) :=
  (counts_mapM fun _ _ => rule.policy.counts_replacement rule.key).bind fun _ => counts_pure _

namespace Rules

/-- Whatever the text, the rules leave the random words as they are. -/
def DrawNothing (rules : Rules) : Prop :=
  ∀ text draws, (rules.rewrite text draws).2 = draws

theorem counts_rewrite (rules : Rules) (text : String) : Counts (rules.rewrite text) :=
  counts_foldlM _ fun rule _ current => Rewrite.counts_apply rule current

/-- What such rules make of a text is the same for all random words. -/
theorem DrawNothing.spares_rewrite {rules : Rules} (h : rules.DrawNothing) (text : String) :
    Spares (rules.rewrite text) :=
  (rules.counts_rewrite text).spares (h text)

theorem drawNothing_of_policies {rules : Rules}
    (h : ∀ rule ∈ rules.toList, ∀ draws, (rule.policy.replacement rule.key draws).2 = draws) :
    rules.DrawNothing := by
  intro text draws
  have hspares : Spares (rules.rewrite text) := by
    refine spares_foldlM _ fun rule hrule current => ?_
    have hpolicy := (rule.policy.counts_replacement rule.key).spares (h rule hrule)
    exact (spares_mapM fun _ _ => hpolicy).bind fun _ => spares_pure _
  exact congrArg Prod.snd (hspares draws draws)

end Rules

end ClassText
