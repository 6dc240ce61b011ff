import ClassText.Bytes
import ClassText.RunError

/-!
# Archives

An archive is a list of entries, each of them a file or a directory. Being
written and read back changes little: a directory has no contents, and its name
is what tells that it is one.
-/

namespace ClassText

structure Entry where
  name : String
  isDirectory : Bool
  bytes : Bytes
  /-- Entries are kept as they are, or else compressed. -/
  stored : Bool
deriving DecidableEq, Repr

namespace Entry

def file (name : String) (bytes : Bytes) : Entry := ⟨name, false, bytes, false⟩

def directory (name : String) : Entry := ⟨name, true, [], true⟩

def namesDirectory (name : String) : Bool :=
  match name.toList.getLast? with
  | some c => c == '/' || c == '\\'
  | none => false

/-- The entry as it comes back from an archive. -/
def archived (e : Entry) : Entry :=
  if e.isDirectory then
    directory (if namesDirectory e.name then e.name else e.name ++ "/")
  else { e with isDirectory := namesDirectory e.name }

end Entry

namespace Archive

def repeatedName? : List Entry → Option String
  | [] => none
  | e :: rest => if rest.any (·.name == e.name) then some e.name else repeatedName? rest

/-- The entries as they come back from an archive, in which every name stands once. -/
def ofEntries (entries : List Entry) : Except ArchiveFault (List Entry) :=
  let archived := entries.map Entry.archived
  match repeatedName? archived with
  | some name => .error (.duplicateName name)
  | none => .ok archived

/-- The bytes of an archive without entries: the record that ends every archive. -/
def emptyBytes : Bytes := [0x50, 0x4b, 5, 6] ++ List.replicate 18 0

end Archive

end ClassText
