import ClassText.ClassFile
import ClassText.Hierarchy.Library
import ClassText.Rewriting.Method

/-!
# Rewriting a class

The methods are rewritten one after the other. A method whose new code cannot
be finished keeps the old one; only what concerns the class as a whole ends the
work on it. Constants that were added for a method stay, even if the method
does not change.
-/

namespace ClassText

/-- What all methods of a class have in common. -/
structure ClassContext where
  className : String
  version : Version
  rules : Rules
  hierarchy : Hierarchy
deriving Repr

/-- Where the work on a class stands. -/
structure ClassProgress where
  pool : ConstantPool
  draws : Draws
  events : List Event
  report : ClassReport

/-- A step of the work on a class. What was told before an error stays told. -/
abbrev ClassStep (α : Type) := ExceptT ClassError (StateM ClassProgress) α

namespace ClassStep

def drawing {α : Type} (draw : Drawing α) : ClassStep α :=
  fun progress =>
    let (a, draws) := draw progress.draws
    (.ok a, { progress with draws })

/-- Change the pool, whether or not that leads to a result. -/
def changing {α : Type} (change : PoolChange α) : ClassStep (Except ClassError α) :=
  fun progress =>
    let (result, pool) := change progress.pool
    (.ok result, { progress with pool })

def ofExcept {α : Type} (result : Except ClassError α) : ClassStep α :=
  fun progress => (result, progress)

/-- Tell that the new code of a method could not be finished. -/
def tellFailed (place : MethodPlace) (error : ClassError) : ClassStep Unit :=
  modify fun p => { p with
    events := p.events ++ [.methodFailed place error]
    report := { p.report with failedMethods := p.report.failedMethods + 1 } }

def tellReplaced (place : MethodPlace) (replacements : List Replacement) : ClassStep Unit :=
  modify fun p => { p with
    events := p.events ++ replacements.map (.substituted place)
    report := { p.report with
      substitutions := p.report.substitutions + replacements.length } }

def tellChanged : ClassStep Unit :=
  modify fun p => { p with report := { p.report with changed := true } }

end ClassStep

namespace ClassContext

def rewriteCode (ctx : ClassContext) (method : Method) (place : MethodPlace) (code : Code) :
    ClassStep Method := do
  let texts ← ClassStep.drawing (code.loadedTexts ctx.rules (← get).pool)
  if texts.isEmpty then return method
  let head : MethodHead := ⟨ctx.className, place.method, place.descriptor, method.isStatic⟩
  match ← ClassStep.changing (code.withTexts? texts ctx.version head ctx.hierarchy) with
  | .error e =>
    ClassStep.tellFailed place e
    return method
  | .ok result =>
    ClassStep.tellReplaced place (texts.flatMap (·.rewrite.replacements))
    match result with
    | none => return method
    | some code =>
      ClassStep.tellChanged
      return method.setCode code

def rewriteMethod (ctx : ClassContext) (method : Method) : ClassStep Method := do
  let pool := (← get).pool
  let name ← ClassStep.ofExcept (method.nameText pool)
  let descriptor ← ClassStep.ofExcept (method.descriptorText pool)
  match method.code? with
  | none => return method
  | some code => ctx.rewriteCode method ⟨ctx.className, name, descriptor⟩ code

end ClassContext

structure RewrittenClass where
  classFile : ClassFile
  report : ClassReport
deriving Repr

/-- The outcome of the work on a class, and what was told and drawn meanwhile. -/
structure ClassRun where
  outcome : Except ClassError RewrittenClass
  events : List Event
  draws : Draws

namespace ClassFile

/-- The name of a class whose methods are to be rewritten. -/
def rewritableName (c : ClassFile) : Except ClassError String := do
  ClassInfo.checkedName (← c.name)

/-- Apply the rules to the strings that the methods of a class load. -/
def rewrite (c : ClassFile) (rules : Rules) (hierarchy : Hierarchy) (draws : Draws) : ClassRun :=
  match c.rewritableName with
  | .error e => ⟨.error e, [], draws⟩
  | .ok name =>
    let ctx : ClassContext := ⟨name, c.version, rules, hierarchy⟩
    let steps : ClassStep (List Method) := c.methods.mapM ctx.rewriteMethod
    let (methods, progress) := steps ⟨c.pool, draws, [], {}⟩
    let outcome := methods.map fun methods =>
      ⟨{ c with pool := progress.pool, methods }, progress.report⟩
    ⟨outcome, progress.events, progress.draws⟩

end ClassFile

end ClassText
