import ClassText.Proofs.Rule.Drawing
import ClassText.Proofs.Rule.Splitting

/-!
# What rules make of a text

A rule splits a text between the occurrences of its key, and its policy supplies one
text after the other for the gaps, each drawn from the words that the one before
has left (`Rule.Replaces`). Several rules do so in their order, each with what the
one before has made, words included (`Rewrite.Arises`). There is exactly one outcome, and
it is the one that is computed (`Rules.rewrite_eq_iff`).

So a text without keys stays as it is and nothing is drawn for it; and a text in
which every occurrence is replaced by its own key is the same text again, since putting the key
back undoes the splitting.
-/

namespace ClassText

open Rewrite

/-- The policy puts these texts in the places of occurrences of the key, in this order. -/
inductive Policy.Supplies (policy : Policy) (key : String) :
    List String → Draws → Draws → Prop where
  | nil (draws : Draws) : Supplies policy key [] draws draws
  | cons {text : String} {texts : List String} {draws middle left : Draws}
    (h : policy.replacement key draws = (text, middle))
    (hrest : Supplies policy key texts middle left) : Supplies policy key (text :: texts) draws left

/-- The rule makes the next text of this one, with a text for each occurrence of its key. -/
def Rule.Replaces (rule : Rule) (text next : String) (texts : List String) (draws left : Draws) :
    Prop :=
  ∃ pieces, IsSplit rule.key.toList text.toList pieces ∧ pieces.length = texts.length + 1 ∧
    rule.policy.Supplies rule.key texts draws left ∧ next = weave pieces texts

/-- The rewrite of a text by some rules in their order. -/
inductive Rewrite.Arises : List Rule → String → Draws → Rewrite → Draws → Prop where
  | none (text : String) (draws : Draws) : Arises [] text draws ⟨text, []⟩ draws
  | step {rule : Rule} {rules : List Rule} {text next : String} {texts : List String}
    {draws middle left : Draws} {last : Rewrite} (h : rule.Replaces text next texts draws middle)
    (hrest : Arises rules next middle last left) :
    Arises (rule :: rules) text draws
      ⟨last.text, texts.map (⟨rule.key, ·⟩) ++ last.replacements⟩ left

variable {policy : Policy} {key text : String} {texts : List String} {rule : Rule}
  {draws left : Draws}

/-! ## The texts of a policy -/

theorem Policy.supplies_mapM (policy : Policy) (key : String) : ∀ (count : Nat) (draws : Draws),
    let result := (List.replicate count ()).mapM (fun _ => policy.replacement key) draws
    policy.Supplies key result.1 draws result.2
  | 0, draws => .nil draws
  | count + 1, draws => by
    rw [List.replicate_succ, List.mapM_cons]
    exact .cons rfl (policy.supplies_mapM key count _)

theorem Policy.Supplies.unique (h : policy.Supplies key texts draws left) :
    ∀ {texts' : List String} {left' : Draws}, policy.Supplies key texts' draws left' →
      texts.length = texts'.length → texts = texts' ∧ left = left' := by
  induction h with
  | nil draws =>
    rintro _ _ (_ | _) hlen
    · exact ⟨rfl, rfl⟩
    · cases hlen
  | cons hfirst _ ih =>
    rintro _ _ (_ | ⟨hfirst', hrest'⟩) hlen
    · cases hlen
    · obtain ⟨rfl, rfl⟩ := Prod.mk.inj (hfirst.symm.trans hfirst')
      obtain ⟨rfl, rfl⟩ := ih hrest' (Nat.succ.inj hlen)
      exact ⟨rfl, rfl⟩

/-! ## One rule -/

theorem toList_ne_nil (h : key ≠ "") : key.toList ≠ [] :=
  fun hnil => h (String.toList_eq_nil_iff.mp hnil)

/-- A rule makes one text of another, and tells what it has put in. -/
theorem exists_replaces (hkey : rule.key ≠ "") (current : Rewrite) (draws : Draws) :
    ∃ next texts left, rule.Replaces current.text next texts draws left ∧
      apply rule current draws =
        (⟨next, current.replacements ++ texts.map (⟨rule.key, ·⟩)⟩, left) := by
  have hsplit := isSplit_split (toList_ne_nil hkey) current.text.toList
  have hlength := List.length_pos_iff.mpr hsplit.ne_nil
  refine ⟨_, _, _, ⟨_, hsplit, ?_, rule.policy.supplies_mapM rule.key _ draws, rfl⟩, rfl⟩
  rw [Draws.length_mapM, List.length_replicate]
  omega

theorem Rule.Replaces.unique {next next' : String} {texts' : List String} {left' : Draws}
    (h : rule.Replaces text next texts draws left)
    (h' : rule.Replaces text next' texts' draws left') :
    next = next' ∧ texts = texts' ∧ left = left' := by
  obtain ⟨pieces, hsplit, hlength, hsupplies, rfl⟩ := h
  obtain ⟨pieces', hsplit', hlength', hsupplies', rfl⟩ := h'
  obtain rfl := hsplit.unique hsplit'
  obtain ⟨rfl, rfl⟩ := hsupplies.unique hsupplies' (by omega)
  exact ⟨rfl, rfl, rfl⟩

/-- A rule whose key does not occur does nothing. -/
theorem Rule.replaces_of_not_isInfix (h : ¬rule.key.toList <:+: text.toList) (draws : Draws) :
    rule.Replaces text text [] draws draws :=
  ⟨_, .whole h, rfl, .nil draws, by rw [weave_singleton, String.ofList_toList]⟩

/-- With the key for each of its occurrences, the text is the same. -/
theorem Rule.Replaces.eq_of_forall_eq_key {next : String}
    (h : rule.Replaces text next texts draws left) (hsame : ∀ t ∈ texts, t = rule.key) :
    next = text := by
  obtain ⟨pieces, hsplit, hlength, -, rfl⟩ := h
  have htexts : texts = List.replicate (pieces.length - 1) (String.ofList rule.key.toList) := by
    rw [hlength, Nat.add_sub_cancel, String.ofList_toList]
    exact List.eq_replicate_iff.mpr ⟨rfl, hsame⟩
  rw [htexts, hsplit.weave_key, String.ofList_toList]

/-! ## All rules -/

namespace Rewrite

variable {rules : List Rule} {result : Rewrite}

theorem exists_arises (hkeys : ∀ rule ∈ rules, rule.key ≠ "") (text : String)
    (replacements : List Replacement) (draws : Draws) :
    ∃ result left, Arises rules text draws result left ∧
      rules.foldlM (fun current rule => apply rule current) ⟨text, replacements⟩ draws =
        (⟨result.text, replacements ++ result.replacements⟩, left) := by
  induction rules generalizing text replacements draws with
  | nil => exact ⟨_, _, .none text draws, by rw [List.append_nil]; rfl⟩
  | cons rule rules ih =>
    obtain ⟨hkey, hkeys⟩ := List.forall_mem_cons.mp hkeys
    obtain ⟨next, texts, middle, hreplaces, happly⟩ :=
      exists_replaces hkey ⟨text, replacements⟩ draws
    obtain ⟨last, left, harises, hfold⟩ :=
      ih hkeys next (replacements ++ texts.map (⟨rule.key, ·⟩)) middle
    refine ⟨_, _, .step hreplaces harises, ?_⟩
    rw [List.foldlM_cons, Draws.run_bind, happly, hfold, List.append_assoc]

theorem Arises.unique (h : Arises rules text draws result left) :
    ∀ {result' : Rewrite} {left' : Draws}, Arises rules text draws result' left' →
      result = result' ∧ left = left' := by
  induction h with
  | none text draws =>
    rintro _ _ (_ | _)
    exact ⟨rfl, rfl⟩
  | step hfirst _ ih =>
    rintro _ _ (_ | ⟨hfirst', hrest'⟩)
    obtain ⟨rfl, rfl, rfl⟩ := hfirst.unique hfirst'
    obtain ⟨rfl, rfl⟩ := ih hrest'
    exact ⟨rfl, rfl⟩

/-- A text in which no key occurs is left as it is, without a draw. -/
theorem arises_of_not_isInfix (h : ∀ rule ∈ rules, ¬rule.key.toList <:+: text.toList)
    (draws : Draws) : Arises rules text draws ⟨text, []⟩ draws := by
  induction rules with
  | nil => exact .none text draws
  | cons rule rules ih =>
    obtain ⟨hfirst, hrest⟩ := List.forall_mem_cons.mp h
    exact .step (rule.replaces_of_not_isInfix hfirst draws) (ih hrest)

theorem Arises.eq_of_forall_eq_key (h : Arises rules text draws result left)
    (hsame : ∀ r ∈ result.replacements, r.text = r.key) : result.text = text := by
  induction h with
  | none text draws => rfl
  | @step rule _ _ _ texts _ _ _ _ hfirst _ ih =>
    obtain ⟨hnow, hlater⟩ := List.forall_mem_append.mp hsame
    have hnext := hfirst.eq_of_forall_eq_key fun t ht => hnow ⟨rule.key, t⟩ (List.mem_map_of_mem ht)
    exact (ih hlater).trans hnext

end Rewrite

namespace Rules

variable {rules : Rules} {result : Rewrite}

/-- The rules make of a text what arises from them in their order, and nothing else does. -/
theorem rewrite_eq_iff :
    rules.rewrite text draws = (result, left) ↔ Arises rules.toList text draws result left := by
  obtain ⟨result', left', harises, hfold⟩ := exists_arises rules.keys_ne_empty text [] draws
  have hrewrite : rules.rewrite text draws = (result', left') := hfold
  rw [hrewrite, Prod.mk.injEq]
  constructor
  · rintro ⟨rfl, rfl⟩
    exact harises
  · exact harises.unique

theorem text_rewrite_of_forall_eq_key
    (h : ∀ r ∈ (rules.rewrite text draws).1.replacements, r.text = r.key) :
    (rules.rewrite text draws).1.text = text :=
  (rewrite_eq_iff.mp rfl).eq_of_forall_eq_key h

/-- Without a replacement, the rules give the text back. -/
theorem text_rewrite (h : (rules.rewrite text draws).1.replacements = []) :
    (rules.rewrite text draws).1.text = text :=
  text_rewrite_of_forall_eq_key fun r hr => by rw [h] at hr; cases hr

/-- Rules replace the occurrences of their keys from left to right, one rule after the other. A text
without keys is left as it is and nothing is drawn for it, and a text is the same if each key is
replaced by itself. -/
theorem rewrite_arises (rules : Rules) (text : String) (draws : Draws) :
    (∀ result left, rules.rewrite text draws = (result, left) ↔
      Arises rules.toList text draws result left) ∧
    ((∀ rule ∈ rules.toList, ¬rule.key.toList <:+: text.toList) →
      rules.rewrite text draws = (⟨text, []⟩, draws)) ∧
    ((∀ r ∈ (rules.rewrite text draws).1.replacements, r.text = r.key) →
      (rules.rewrite text draws).1.text = text) :=
  ⟨fun _ _ => rewrite_eq_iff, fun h => rewrite_eq_iff.mpr (arises_of_not_isInfix h draws),
    text_rewrite_of_forall_eq_key⟩

/-- Two a's become a b, every b becomes a number, and a c is replaced by itself. -/
def numbering : Rules where
  toList := [⟨"aa", .literal "b"⟩, ⟨"b", .randomInt⟩, ⟨"c", .literal "c"⟩]
  keys_ne_empty := by decide
  keys_nodup := by decide

/-- The second a belongs to the first occurrence, so the third one is left alone. The second rule
sees what the first one has put in, and draws a word for each b. -/
theorem rewrite_arises_numbering :
    Arises numbering.toList "aaaba" (.cycle [5, 0xffffffff])
      ⟨"5a-1a", [⟨"aa", "b"⟩, ⟨"b", "5"⟩, ⟨"b", "-1"⟩]⟩
      { Draws.cycle [5, 0xffffffff] with drawn := 2 } ∧
    numbering.rewrite "a d" (.cycle [5]) = (⟨"a d", []⟩, .cycle [5]) ∧
    (numbering.rewrite "cac" (.cycle [5])).1.text = "cac" := by
  obtain ⟨hall, -⟩ := rewrite_arises numbering "aaaba" (.cycle [5, 0xffffffff])
  obtain ⟨-, hnone, -⟩ := rewrite_arises numbering "a d" (.cycle [5])
  obtain ⟨-, -, hsame⟩ := rewrite_arises numbering "cac" (.cycle [5])
  refine ⟨(hall _ _).mp (Prod.ext ?_ ?_), hnone ?_, hsame ?_⟩
  · decide +kernel
  · with_unfolding_all rfl
  · decide +kernel
  · decide +kernel

end Rules

end ClassText
