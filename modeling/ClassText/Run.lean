import ClassText.Archive
import ClassText.Rewriting.Class
import ClassText.Settings

/-!
# Rewriting an archive

All classes of an archive are known before the first one is rewritten, since
the frames of one can depend on others. Every entry comes back in its place:
rewritten if it holds a class that the settings ask for and nothing went wrong,
and else as it was. Whether an entry holds a class is told by its contents.
-/

namespace ClassText

inductive EntryContent where
  | noClass
  | classFile (c : ClassFile) (info : ClassInfo)
  | broken (error : ClassError)
deriving Repr

inductive EntryOutcome where
  | passedThrough
  | kept (report : ClassReport)
  | rewritten (report : ClassReport)
  | failed (report : ClassReport)
deriving DecidableEq, Repr

namespace EntryContent

/-- The class that some bytes hold, and where it stands. -/
def ofBytes (bytes : Bytes) : EntryContent :=
  match ClassFile.ofBytes bytes with
  | .error .notClassFile => noClass
  | .error e => broken e
  | .ok c =>
    match ClassInfo.ofClassFile c with
    | .error e => broken e
    | .ok info => classFile c info

def ofEntry (e : Entry) : EntryContent :=
  if e.isDirectory then noClass else ofBytes e.bytes

def info? : EntryContent → Option ClassInfo
  | classFile _ info => some info
  | _ => none

/-- What is told of an entry when it is opened. -/
def opening (name : String) : EntryContent → List Event
  | broken error => [.classFailed name error]
  | _ => []

end EntryContent

namespace EntryOutcome

def report : EntryOutcome → ClassReport
  | passedThrough => {}
  | kept r | rewritten r | failed r => r

def isPassedThrough : EntryOutcome → Bool
  | passedThrough => true
  | _ => false

def isRewritten : EntryOutcome → Bool
  | rewritten _ => true
  | _ => false

def isFailed : EntryOutcome → Bool
  | failed _ => true
  | _ => false

/-- Replacements count for those classes alone that did not fail. -/
def substitutions : EntryOutcome → Nat
  | kept r | rewritten r => r.substitutions
  | passedThrough | failed _ => 0

/-- A number of each outcome, added up. -/
def total (number : EntryOutcome → Nat) (outcomes : List EntryOutcome) : Nat :=
  outcomes.foldr (fun o n => number o + n) 0

end EntryOutcome

def Summary.ofOutcomes (outcomes : List EntryOutcome) : Summary where
  entries := outcomes.length
  rewrittenClasses := outcomes.countP (·.isRewritten)
  passthroughEntries := outcomes.countP (·.isPassedThrough)
  failedClasses := outcomes.countP (·.isFailed)
  failedMethods := EntryOutcome.total (·.report.failedMethods) outcomes
  substitutions := EntryOutcome.total (·.substitutions) outcomes

/-- An entry after a run, what became of it, and what was told meanwhile. -/
structure ProcessedEntry where
  entry : Entry
  outcome : EntryOutcome
  events : List Event
deriving Repr

namespace Settings

def appliesTo (s : Settings) (c : ClassFile) : Bool :=
  match c.name with
  | .ok name => s.matchesClass name
  | .error _ => false

/-- Rewrite the class in an entry. -/
def processClass (s : Settings) (hierarchy : Hierarchy) (e : Entry) (c : ClassFile) :
    Drawing ProcessedEntry := do
  let run := c.rewrite s.rules hierarchy (← get)
  set run.draws
  match run.outcome with
  | .error error => return ⟨e, .failed {}, run.events ++ [.classFailed e.name error]⟩
  | .ok ⟨changed, report⟩ =>
    if !report.changed then return ⟨e, .kept report, run.events⟩
    else match changed.toBytes with
      | .ok bytes => return ⟨{ e with bytes }, .rewritten report, run.events⟩
      | .error error => return ⟨e, .failed report, run.events ++ [.classFailed e.name error]⟩

def processEntry (s : Settings) (hierarchy : Hierarchy) (e : Entry) (content : EntryContent) :
    Drawing ProcessedEntry :=
  match content with
  | .noClass => return ⟨e, .passedThrough, []⟩
  | .broken _ => return ⟨e, .failed {}, []⟩
  | .classFile c _ =>
    if s.appliesTo c then s.processClass hierarchy e c else return ⟨e, .kept {}, []⟩

end Settings

structure Run where
  entries : List Entry
  summary : Summary
  events : List Event
deriving Repr

namespace Run

/-- Rewrite the entries of an archive. Their classes come before others of the same name in
the hierarchy, and of two with one name the first counts. -/
def ofEntries (s : Settings) (hierarchy : Hierarchy) (entries : List Entry) : Drawing Run := do
  let contents := entries.map fun e => (e, EntryContent.ofEntry e)
  let known := (contents.filterMap (·.2.info?)).foldl Hierarchy.add hierarchy
  let processed ← contents.mapM fun (e, content) => s.processEntry known e content
  return {
    entries := processed.map (·.entry)
    summary := Summary.ofOutcomes (processed.map (·.outcome))
    events := (contents.flatMap fun (e, content) => content.opening e.name) ++
      processed.flatMap (·.events) }

end Run

end ClassText
