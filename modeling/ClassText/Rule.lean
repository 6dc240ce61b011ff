import ClassText.Draws
import ClassText.RunError

/-!
# Rules

A rule replaces every occurrence of its key by what its policy says. Rules have
an order, which is that in which their keys came first; a new policy for an old
key takes the place of the former one.
-/

namespace ClassText

/-- What takes the place of one occurrence of a key. -/
inductive Policy where
  | literal (text : String)
  /-- An integer of thirty-two bits, drawn anew for each occurrence. -/
  | randomInt
  /-- A text with this probability, or else the key itself. -/
  | origOrFixed (fixed : String) (probability : Probability)
deriving DecidableEq, Repr

namespace Policy

/-- What follows the first characters of a text, if it begins with them. -/
def afterPrefix? (start text : List Char) : Option (List Char) :=
  if start <+: text then some (text.drop start.length) else none

/-- What comes before the last characters of a text, if it ends with them. -/
def beforeSuffix? (stop text : List Char) : Option (List Char) :=
  if stop <:+ text then some (text.take (text.length - stop.length)) else none

/-- The policy that a value stands for. Most values stand for themselves. -/
def ofValue (value : String) (probability : Probability) : Policy :=
  if value = "%int%" then randomInt
  else
    match (afterPrefix? "%".toList value.toList).bind (beforeSuffix? "|orig%".toList) with
    | some fixed => origOrFixed (String.ofList fixed) probability
    | none => literal value

/-- What takes the place of an occurrence of a key. -/
def replacement (policy : Policy) (key : String) : Drawing String :=
  match policy with
  | literal text => return text
  | randomInt => do
    let word ← Draws.draw
    return toString word.toUInt32.toInt32.toInt
  | origOrFixed fixed p =>
    if p = Probability.one then return fixed
    else do
      let word ← Draws.draw
      return if word.toNat < p.threshold then fixed else key

/-- The probability by which the policy chooses, if it does. -/
def probability? : Policy → Option Probability
  | origOrFixed _ p => some p
  | _ => none

end Policy

structure Rule where
  key : String
  policy : Policy
deriving DecidableEq, Repr

/-- Rules in their order. Keys are not empty, and no two rules share one. -/
structure Rules where
  toList : List Rule
  keys_ne_empty : ∀ rule ∈ toList, rule.key ≠ ""
  keys_nodup : (toList.map (·.key)).Nodup
deriving Repr

namespace Rules

@[ext] theorem ext {a b : Rules} (h : a.toList = b.toList) : a = b := by
  cases a; cases b; simp_all

def empty : Rules := ⟨[], by simp, by simp⟩

def isEmpty (rules : Rules) : Bool := rules.toList.isEmpty

def size (rules : Rules) : Nat := rules.toList.length

/-- The rules with another policy for a key. -/
def setPolicy (rules : List Rule) (key : String) (policy : Policy) : List Rule :=
  rules.map fun rule => if rule.key = key then ⟨key, policy⟩ else rule

theorem keys_setPolicy (rules : List Rule) (key : String) (policy : Policy) :
    (setPolicy rules key policy).map (·.key) = rules.map (·.key) := by
  simp only [setPolicy, List.map_map, List.map_inj_left]
  intro rule _
  simp only [Function.comp_apply]
  split <;> simp_all

/-- Add a rule at the end, or set the policy of the rule with this key. -/
def insert (rules : Rules) (key : String) (policy : Policy) : Except RunError Rules :=
  if hkey : key = "" then .error (.configuration .emptyPlaceholder)
  else if hmem : key ∈ rules.toList.map (·.key) then
    .ok {
      toList := setPolicy rules.toList key policy
      keys_ne_empty := by
        intro rule hrule
        have : rule.key ∈ (setPolicy rules.toList key policy).map (·.key) :=
          List.mem_map_of_mem hrule
        rw [keys_setPolicy, List.mem_map] at this
        obtain ⟨old, hold, heq⟩ := this
        exact heq ▸ rules.keys_ne_empty old hold
      keys_nodup := by rw [keys_setPolicy]; exact rules.keys_nodup }
  else
    .ok {
      toList := rules.toList ++ [⟨key, policy⟩]
      keys_ne_empty := by
        intro rule hrule
        rcases List.mem_append.1 hrule with h | h
        · exact rules.keys_ne_empty rule h
        · simp only [List.mem_singleton] at h; simpa [h] using hkey
      keys_nodup := by
        rw [List.map_append, List.nodup_append]
        refine ⟨rules.keys_nodup, by simp, ?_⟩
        intro a ha b hb hab
        simp only [List.map_cons, List.map_nil, List.mem_singleton] at hb
        exact hmem (hb ▸ hab ▸ ha) }

/-- The placeholders of downloads from one site, and what the presets put in their places. -/
def spigotPlaceholders : List (String × String) :=
  [("%%__USER__%%", "1111"), ("%%__RESOURCE__%%", "2222"), ("%%__NONCE__%%", "3333")]

def spigotPolicy (fixed : String) (probability : Probability) : Policy :=
  if probability.isCertain then .literal fixed else .origOrFixed fixed probability

def insertSpigot (rules : Rules) (probability : Probability) : Except RunError Rules :=
  spigotPlaceholders.foldlM
    (fun rules (key, fixed) => rules.insert key (spigotPolicy fixed probability)) rules

end Rules

end ClassText
