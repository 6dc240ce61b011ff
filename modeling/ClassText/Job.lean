import ClassText.CommandLine
import ClassText.Disk
import ClassText.Hierarchy.Standard
import ClassText.Run

/-!
# Jobs

A job is a run from one archive to another, as the command line asks for it. It
leaves a log and an exit code. Nothing is written unless the whole run
succeeded.
-/

namespace ClassText

/-- What a job leaves behind, besides the archive. -/
structure JobResult where
  exitCode : Nat
  log : List LogLine
deriving DecidableEq, Repr

/-- The exit code of arguments that are not carried out. Asking for help is no mistake. -/
def UsageProblem.exitCode : UsageProblem → Nat
  | helpWanted | versionWanted => 0
  | _ => 2

namespace Hierarchy

/-- The classes among the entries of a library, under the names by which they are found. -/
def libraryClasses (entries : List Entry) : List (String × ClassInfo) :=
  (entries.filter (!·.isDirectory)).filterMap fun e => do
    let name ← Policy.beforeSuffix? ".class".toList e.name.toList
    return (String.ofList name, ← ClassInfo.ofBytes? e.bytes)

def withLibrary (h : Hierarchy) (entries : List Entry) : Hierarchy :=
  h.addLibrary (libraryClasses entries)

end Hierarchy

namespace Job

variable {m : Type → Type} [Monad m]

def hierarchyOf (disk : Disk m) : Hierarchy → List String → m (Except RunError Hierarchy)
  | h, [] => return .ok h
  | h, path :: paths => do
    match ← disk.readArchive path with
    | .error e => return .error e
    | .ok entries => hierarchyOf disk (h.withLibrary entries) paths

/-- A run and the log it leaves, or an error and the log up to it. -/
def perform (disk : Disk m) (inv : Invocation) (s : Settings) (draws : Draws) :
    m (List LogLine × Option RunError) := do
  match ← disk.readArchive inv.input with
  | .error e => return ([], some e)
  | .ok entries =>
    match ← hierarchyOf disk .standard s.libraries with
    | .error e => return ([], some e)
    | .ok hierarchy =>
      let (run, _) := Run.ofEntries s hierarchy entries draws
      let told := run.events.map Event.logLine
      match ← disk.writeArchive inv.output run.entries with
      | .error e => return (told, some e)
      | .ok () => return (told ++ [⟨.info, run.summary.text⟩], none)

def firstLine (inv : Invocation) : LogLine :=
  ⟨.info, "Rewriting '" ++ inv.input ++ "' into '" ++ inv.output ++ "'"⟩

/-- Carry out what the command line asks for. -/
def run (disk : Disk m) (arguments : List String) (draws : Draws) : m JobResult := do
  match Invocation.ofArguments arguments with
  | .error problem => return ⟨problem.exitCode, []⟩
  | .ok inv =>
    match inv.settings with
    | .error _ => return ⟨2, []⟩
    | .ok s =>
      match ← perform disk inv s draws with
      | (told, none) => return ⟨0, firstLine inv :: told⟩
      | (told, some e) => return ⟨1, firstLine inv :: told ++ [⟨.error, e.message⟩]⟩

/-- What there is to say when arguments lead to no run. -/
def complaint? (arguments : List String) : Option String :=
  match Invocation.ofArguments arguments with
  | .error problem => some problem.message
  | .ok inv =>
    match inv.settings with
    | .error e => some e.message
    | .ok _ => none

end Job

end ClassText
