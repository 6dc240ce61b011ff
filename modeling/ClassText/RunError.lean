import ClassText.Probability

/-!
# What can go wrong with a run

Bad settings, files that cannot be read or written, and archives that are none.
What goes wrong inside a class does not belong here: the class is then kept as
it is, and the run goes on.
-/

namespace ClassText

inductive ConfigurationProblem where
  | emptyPlaceholder
  | unpairedArguments (count : Nat)
  | badProbability (p : Probability)
  | noPlaceholders
  | emptyFilter
  | noThreads
  | other (text : String)
deriving DecidableEq, Repr

def ConfigurationProblem.message : ConfigurationProblem → String
  | emptyPlaceholder => "placeholders must not be empty"
  | unpairedArguments count =>
    "expected placeholder and replacement pairs, but got " ++ toString count ++ " arguments"
  | badProbability p => "probability " ++ p.text ++ " is not between 0 and 1"
  | noPlaceholders => "no placeholders to replace"
  | emptyFilter => "class filter must not be empty"
  | noThreads => "number of threads must be at least 1"
  | other text => text

inductive FileFault where
  | missing
  | denied
  | busy
  | notDirectory
  | isDirectory
  | nameTooLong
  /-- The path does not end in the name of a file. -/
  | noFileName (path : String)
  | other (text : String)
deriving DecidableEq, Repr

def FileFault.message : FileFault → String
  | missing => "No such file or directory (os error 2)"
  | denied => "Permission denied (os error 13)"
  | busy => "Device or resource busy (os error 16)"
  | notDirectory => "Not a directory (os error 20)"
  | isDirectory => "Is a directory (os error 21)"
  | nameTooLong => "File name too long (os error 36)"
  | noFileName path => path ++ " is not a file path"
  | other text => text

/-- Why some bytes are no archive, or some entries make none. -/
inductive ArchiveFault where
  | notArchive
  | duplicateName (name : String)
  /-- There are more entries or bytes than an archive has room for. -/
  | tooLarge
deriving DecidableEq, Repr

def ArchiveFault.message : ArchiveFault → String
  | notArchive => "not a readable archive"
  | duplicateName name => "two entries are named " ++ name
  | tooLarge => "too large for an archive"

inductive RunError where
  | configuration (problem : ConfigurationProblem)
  | file (fault : FileFault)
  | archive (fault : ArchiveFault)
deriving DecidableEq, Repr

namespace RunError

def message : RunError → String
  | configuration problem => problem.message
  | file fault => "I/O error: " ++ fault.message
  | archive fault => "archive error: " ++ fault.message

/-- Does another error lie behind this one? -/
def hasSource : RunError → Bool
  | configuration _ => false
  | file _ | archive _ => true

end RunError

end ClassText
