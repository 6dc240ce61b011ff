import ClassText.Decimal.Reading
import ClassText.Settings

/-!
# The command line

Arguments are read from left to right. An option that takes a value waits for
the argument after it, unless the value is attached to it. What was read is
taken in only when the next option or path comes, and what is wrong with a
value shows only then.

After the two paths come placeholders and replacements. From the first of them
on, every argument is one, whatever it begins with; right before it, options
that are known still count as options.
-/

namespace ClassText

inductive UsageProblem where
  | missingRequired
  | unknownArgument
  | conflict
  | badValue
  | noValue
  | excessValue
  | helpWanted
  | versionWanted
deriving DecidableEq, Repr

def UsageProblem.message : UsageProblem → String
  | missingRequired => "an input and an output archive are required"
  | unknownArgument => "unexpected argument"
  | conflict => "an option is given twice, or with one that excludes it"
  | badValue => "a value cannot be read"
  | noValue => "a value is missing"
  | excessValue => "a value is given to an option that takes none"
  | helpWanted | versionWanted => "replaces placeholder strings that the classes of an archive load"

/-- Options that take a value. -/
inductive ValueOption where
  | filter | probability | library | threads
deriving DecidableEq, Repr

/-- Options that take none. -/
inductive Switch where
  | spigot50 | spigot100 | help | version
deriving DecidableEq, Repr

inductive OptionName where
  | value (o : ValueOption)
  | switch (s : Switch)
deriving DecidableEq, Repr

namespace OptionName

def ofLong? : String → Option OptionName
  | "class" => some (value .filter)
  | "probability" => some (value .probability)
  | "library" => some (value .library)
  | "threads" => some (value .threads)
  | "spigot50" => some (switch .spigot50)
  | "spigot100" => some (switch .spigot100)
  | "help" => some (switch .help)
  | "version" => some (switch .version)
  | _ => none

def ofShort? : Char → Option OptionName
  | 'c' => some (value .filter)
  | 'p' => some (value .probability)
  | 'l' => some (value .library)
  | 'j' => some (value .threads)
  | 'h' => some (switch .help)
  | 'V' => some (switch .version)
  | _ => none

end OptionName

structure Arguments where
  filter : Option String := none
  probability : Option Probability := none
  libraries : List String := []
  threads : Option Nat := none
  spigot50 : Bool := false
  spigot100 : Bool := false
  input : Option String := none
  output : Option String := none
  pairs : List String := []
deriving DecidableEq, Repr, Inhabited

/-- What was read and is not taken in yet. -/
inductive Waiting where
  | nothing
  | option (o : ValueOption) (value : Option String)
  | input (path : String)
  | output (path : String)
  | pairs (texts : List String)
deriving DecidableEq, Repr

structure ArgumentReading where
  arguments : Arguments := {}
  waiting : Waiting := .nothing
  paths : Nat := 0
  /-- After two hyphens on their own, no argument is an option. -/
  onlyTexts : Bool := false
deriving DecidableEq, Repr

namespace Arguments

def readCount? (text : String) : Option Nat :=
  let digits := match text.toList with
    | '+' :: rest => rest
    | all => all
  -- twenty digits are enough for any number in range
  let significant := digits.dropWhile (· == '0')
  if digits ≠ [] ∧ digits.all Char.isDigit ∧ significant.length ≤ 20 then
    let n := Decimal.digitsValue significant
    if n < 18446744073709551616 then some n else none
  else none

def readPath (text : String) : Except UsageProblem String :=
  if text = "" then .error .noValue else .ok text

/-- Set what may be set only once. -/
def once {α : Type} (before : Option α) (read : Except UsageProblem α) :
    Except UsageProblem (Option α) :=
  match before with
  | some _ => .error .conflict
  | none => read.map some

def readable {α : Type} (value : Option α) : Except UsageProblem α :=
  match value with
  | some a => .ok a
  | none => .error .badValue

def setValue (a : Arguments) (o : ValueOption) (text : String) :
    Except UsageProblem Arguments := do
  match o with
  | .filter => return { a with filter := ← once a.filter (.ok text) }
  | .probability =>
    let read := (Decimal.read? .double text).map UInt64.ofNat
    return { a with probability := ← once a.probability (readable read) }
  | .library => return { a with libraries := a.libraries ++ [← readPath text] }
  | .threads => return { a with threads := ← once a.threads (readable (readCount? text)) }

def turnOn (a : Arguments) : Switch → Except UsageProblem Arguments
  | .spigot50 => if a.spigot50 then .error .conflict else .ok { a with spigot50 := true }
  | .spigot100 => if a.spigot100 then .error .conflict else .ok { a with spigot100 := true }
  | .help => .error .helpWanted
  | .version => .error .versionWanted

/-- Take in what was read. -/
def settle (a : Arguments) : Waiting → Except UsageProblem Arguments
  | .nothing => .ok a
  | .option _ none => .error .noValue
  | .option o (some text) => a.setValue o text
  | .input path => do return { a with input := some (← readPath path) }
  | .output path => do return { a with output := some (← readPath path) }
  | .pairs texts => .ok { a with pairs := texts.reverse }

end Arguments

namespace ArgumentReading

def settle (r : ArgumentReading) : Except UsageProblem ArgumentReading := do
  return { r with arguments := ← r.arguments.settle r.waiting, waiting := .nothing }

/-- Read an option that takes a value, which is attached or yet to come. -/
def readOption (r : ArgumentReading) (o : ValueOption) (attached : Option String) :
    Except UsageProblem ArgumentReading := do
  let r ← r.settle
  match attached with
  | some text => return { r with arguments := ← r.arguments.setValue o text }
  | none => return { r with waiting := .option o none }

def readSwitch (r : ArgumentReading) (s : Switch) : Except UsageProblem ArgumentReading := do
  let r ← r.settle
  return { r with arguments := ← r.arguments.turnOn s }

/-- Read a text: a path or, after both paths, a placeholder or replacement. -/
def readText (r : ArgumentReading) (text : String) : Except UsageProblem ArgumentReading := do
  match r.waiting with
  | .pairs texts => return { r with waiting := .pairs (text :: texts) }
  | _ =>
    let r ← r.settle
    match r.paths with
    | 0 => return { r with waiting := .input text, paths := 1 }
    | 1 => return { r with waiting := .output text, paths := 2 }
    | _ => return { r with waiting := .pairs [text] }

/-- Read an argument that is no option: the value of an option that waits for one, or a text. -/
def readPlain (r : ArgumentReading) (text : String) : Except UsageProblem ArgumentReading :=
  match r.waiting with
  | .option o none => .ok { r with waiting := .option o (some text) }
  | _ => r.readText text

/-- Can an argument that looks like an unknown option be the first placeholder? -/
def takesHyphens (r : ArgumentReading) : Bool := r.paths == 2

def readLong (r : ArgumentReading) (argument : String) (body : List Char) :
    Except UsageProblem ArgumentReading :=
  let name := String.ofList (body.takeWhile (· != '='))
  let attached := match body.dropWhile (· != '=') with
    | [] => none
    | _ :: value => some (String.ofList value)
  match OptionName.ofLong? name, attached with
  | some (.value o), attached => r.readOption o attached
  | some (.switch s), none => r.readSwitch s
  | some (.switch _), some _ => .error .excessValue
  | none, _ => if r.takesHyphens then r.readPlain argument else .error .unknownArgument

/-- Read letters after one hyphen. The first of an option that takes a value ends them. -/
def readLetters (r : ArgumentReading) : List Char → Except UsageProblem ArgumentReading
  | [] => .ok r
  | c :: rest =>
    match OptionName.ofShort? c with
    | none => .error .unknownArgument
    | some (.switch s) => do readLetters (← r.readSwitch s) rest
    | some (.value o) =>
      match rest with
      | [] => r.readOption o none
      | '=' :: value => r.readOption o (some (String.ofList value))
      | value => r.readOption o (some (String.ofList value))

def readShort (r : ArgumentReading) (argument : String) (letters : List Char) :
    Except UsageProblem ArgumentReading :=
  if r.takesHyphens ∧ letters.any (fun c => (OptionName.ofShort? c).isNone) then
    r.readPlain argument
  else r.readLetters letters

def step (r : ArgumentReading) (argument : String) : Except UsageProblem ArgumentReading :=
  if r.onlyTexts then r.readText argument
  else
    match r.waiting, argument.toList with
    | .pairs _, _ => r.readText argument
    | _, ['-', '-'] => .ok { r with onlyTexts := true }
    | _, '-' :: '-' :: body => r.readLong argument body
    | _, ['-'] => r.readPlain argument
    | _, '-' :: letters => r.readShort argument letters
    | _, _ => r.readPlain argument

end ArgumentReading

structure Invocation where
  input : String
  output : String
  arguments : Arguments
deriving DecidableEq, Repr

namespace Invocation

def ofArguments (arguments : List String) : Except UsageProblem Invocation := do
  let r ← arguments.foldlM ArgumentReading.step {}
  let a := (← r.settle).arguments
  if a.spigot50 ∧ a.spigot100 then throw .conflict
  match a.input, a.output with
  | some input, some output => return ⟨input, output, a⟩
  | _, _ => throw .missingRequired

def presetRules (a : Arguments) : Except RunError Rules :=
  if a.spigot50 then Rules.empty.insertSpigot .half
  else if a.spigot100 then Rules.empty.insertSpigot .one
  else .ok .empty

def settings (inv : Invocation) : Except RunError Settings := do
  let a := inv.arguments
  let probability ← (a.probability.getD .half).check
  let (s, problem) := (Settings.ofRules (← presetRules a)).insertPairs a.pairs probability
  if let some e := problem then throw e
  let s := { s with filter := a.filter, libraries := a.libraries }
  if a.threads = some 0 then throw (.configuration .noThreads)
  s.validate
  return s

end Invocation

end ClassText
