import ClassText.Archive.Container
import ClassText.Job

/-!
# The program

Files serve as the disk of a job, and its log goes to the standard error. An
archive is written to a file beside the one that is asked for, which takes its
place in the end.
-/

namespace ClassText

namespace Program

/-- The fault behind a number of the system, which comes with either sign. -/
def faultOfNumber? (number : UInt32) : Option FileFault :=
  match min number (0 - number) with
  | 2 => some .missing
  | 13 => some .denied
  | 16 => some .busy
  | 20 => some .notDirectory
  | 21 => some .isDirectory
  | 36 => some .nameTooLong
  | _ => none

def fileFault (e : IO.Error) : FileFault :=
  let known? := match e with
    | .noFileOrDirectory _ number _ | .inappropriateType _ number _ | .resourceBusy number _
    | .invalidArgument _ number _ | .permissionDenied _ number _ => faultOfNumber? number
    | _ => none
  known?.getD (.other (toString e))

/-- Work on files, with what goes wrong as an error of the run. -/
def attempt {α : Type} (action : IO α) : ExceptT RunError IO α := do
  match ← action.toBaseIO with
  | .ok a => return a
  | .error e => throw (.file (fileFault e))

def readArchive (path : String) : ExceptT RunError IO (List Entry) := do
  match Archive.read (← attempt (IO.FS.readBinFile path)) with
  | .ok entries => return entries
  | .error fault => throw (.archive fault)

/-- Write an archive to a file that is not finished, and give it its name then. -/
def writeThrough (unfinished path : String) (entries : List Entry) :
    ExceptT RunError IO Unit := do
  attempt (IO.FS.writeBinFile unfinished .empty)
  match Archive.write entries with
  | .error fault => throw (.archive fault)
  | .ok bytes =>
    attempt (IO.FS.writeBinFile unfinished bytes)
    attempt (IO.FS.rename unfinished path)

def writeArchive (path : String) (entries : List Entry) : IO (Except RunError Unit) := do
  match Path.fileName? path with
  | none => return .error (.file (.noFileName path))
  | some name =>
    let unfinished := Path.beside path (Path.unfinished name)
    let result ← (writeThrough unfinished path entries).run
    if result matches .error _ then
      let _ ← (IO.FS.removeFile unfinished).toBaseIO
    return result

def files : Disk IO := ⟨fun path => (readArchive path).run, writeArchive⟩

def usage : String :=
  "Usage: class-text [-c NAME] [--spigot50 | --spigot100] [-p P] [-l ARCHIVE]... [-j N] " ++
    "INPUT OUTPUT [PLACEHOLDER REPLACEMENT]..."

end Program

end ClassText

open ClassText in
def main (arguments : List String) : IO UInt32 := do
  let seed := (← IO.getRandomBytes 8).toList.foldl (fun n b => n * 256 + b.toNat) 0
  let result ← Job.run Program.files arguments (.ofSeed (.ofNat seed))
  for line in result.log do
    IO.eprintln (line.level.name ++ " " ++ line.text)
  if let some complaint := Job.complaint? arguments then
    IO.eprintln (complaint ++ "\n\n" ++ Program.usage)
  return .ofNat result.exitCode
