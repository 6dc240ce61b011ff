import ClassText.Rule

/-!
# Settings

What a run is to do: the rules, the classes to which they apply, and the
archives in which further classes are looked up.
-/

namespace ClassText

structure Settings where
  rules : Rules
  /-- Only classes whose name contains this are rewritten. -/
  filter : Option String
  /-- Paths of archives that are only looked into. -/
  libraries : List String
deriving Repr

/-- Does a text occur in another? -/
def occursIn (text : List Char) : (within : List Char) → Bool
  | [] => text.isEmpty
  | c :: rest => text.isPrefixOf (c :: rest) || occursIn text rest

def Probability.check (p : Probability) : Except RunError Probability :=
  if p.isValid then .ok p else .error (.configuration (.badProbability p))

namespace Settings

/-- Settings with these rules and nothing else. -/
def ofRules (rules : Rules) : Settings := ⟨rules, none, []⟩

def matchesClass (s : Settings) (name : String) : Bool :=
  match s.filter with
  | some filter => occursIn filter.toList name.toList
  | none => true

/-- Arguments two by two. -/
def pairs : List String → List (String × String)
  | key :: value :: rest => (key, value) :: pairs rest
  | _ => []

/-- Add a rule for each key and value. A rule that is refused ends the list, and comes back
with the rules before it. -/
def insertAll (probability : Probability) (rules : Rules) :
    List (String × String) → Rules × Option RunError
  | [] => (rules, none)
  | (key, value) :: rest =>
    match rules.insert key (Policy.ofValue value probability) with
    | .ok rules => insertAll probability rules rest
    | .error e => (rules, some e)

/-- Add rules for keys and values that follow one another. The rules before the first one that
is refused stay. -/
def insertPairs (s : Settings) (arguments : List String) (probability : Probability) :
    Settings × Option RunError :=
  if arguments.length % 2 ≠ 0 then
    (s, some (.configuration (.unpairedArguments arguments.length)))
  else if !probability.isValid then (s, some (.configuration (.badProbability probability)))
  else
    let (rules, problem) := insertAll probability s.rules (pairs arguments)
    ({ s with rules }, problem)

/-- Can a run be made with these settings? -/
def validate (s : Settings) : Except RunError Unit := do
  if s.rules.isEmpty then throw (.configuration .noPlaceholders)
  if s.filter = some "" then throw (.configuration .emptyFilter)
  for p in s.rules.toList.filterMap (·.policy.probability?) do
    let _ ← p.check

end Settings

end ClassText
