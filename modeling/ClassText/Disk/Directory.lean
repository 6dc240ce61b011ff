import ClassText.Disk

/-!
# A directory

The files of one directory, by their names, and empty directories among them.
Of the directories around this one nothing is known but that they are there.

An archive is written under another name first, so that nothing appears under
its own name unless everything is written.
-/

namespace ClassText

inductive DirectoryItem where
  | archive (entries : List Entry)
  | bytes (bytes : Bytes)
  | directory
deriving DecidableEq, Repr

namespace DirectoryItem

/-- The entries of an archive. Among plain bytes, only the empty archive counts as one. -/
def read : DirectoryItem → Except RunError (List Entry)
  | archive entries => .ok entries
  | bytes b => if b = Archive.emptyBytes then .ok [] else .error (.archive .notArchive)
  | directory => .error (.file .isDirectory)

end DirectoryItem

structure Directory where
  items : List (String × DirectoryItem)
deriving DecidableEq, Repr

inductive Place where
  | around
  | here
  | inside
deriving DecidableEq, Repr

def Place.up : Place → Place
  | inside => here
  | here | around => around

namespace Directory

def item? (d : Directory) (name : String) : Option DirectoryItem :=
  (d.items.find? (·.1 == name)).map (·.2)

def erase (d : Directory) (name : String) : Directory :=
  ⟨d.items.filter (·.1 != name)⟩

def insert (d : Directory) (name : String) (item : DirectoryItem) : Directory :=
  ⟨(d.erase name).items ++ [(name, item)]⟩

def itemAt (d : Directory) (place : Place) (name : String) : Except FileFault DirectoryItem :=
  if Path.maxNameSize < name.utf8ByteSize then .error .nameTooLong
  else match place, d.item? name with
    | .here, some item => .ok item
    | _, _ => .error .missing

def step (d : Directory) (place : Place) (name : String) : Except FileFault Place :=
  if name = ".." then .ok place.up
  else do
    match ← d.itemAt place name with
    | .directory => .ok .inside
    | _ => .error .notDirectory

def placeOf (d : Directory) (path : String) : Except FileFault Place :=
  (Path.names path).dropLast.foldlM d.step (if Path.isAbsolute path then .around else .here)

def lookUp (d : Directory) (path : String) : Except FileFault DirectoryItem := do
  if Path.maxSize < path.utf8ByteSize then throw .nameTooLong
  let place ← d.placeOf path
  match (Path.names path).getLast? with
  | none | some ".." => return .directory
  | some name =>
    let item ← d.itemAt place name
    if Path.marksDirectory path && item != .directory then throw .notDirectory
    return item

def readArchive (d : Directory) (path : String) : Except RunError (List Entry) := do
  (← (d.lookUp path).mapError .file).read

/-- Where a file that is not finished can be made, if it is to come to a path under a name. -/
def makeUnfinished (d : Directory) (path name : String) : Except FileFault Place := do
  let unfinished := Path.unfinished name
  if Path.maxSize < (Path.beside path unfinished).utf8ByteSize then throw .nameTooLong
  let place ← d.placeOf path
  match d.itemAt place unfinished with
  | .error .missing => return place
  | .error e => throw e
  | .ok item => if item = .directory then throw .isDirectory else return place

/-- Can a file that stands at a place under another name move to a path, which ends in this
name? -/
def checkMove (d : Directory) (place : Place) (path name : String) : Except FileFault Unit := do
  if Path.maxSize < path.utf8ByteSize then throw .nameTooLong
  let item := d.itemAt place name
  if Path.endsInDot path then throw (if (← item) = .directory then .busy else .notDirectory)
  if path.endsWith "/" then throw .notDirectory
  if item matches .ok .directory then throw .isDirectory

/-- Write an archive under another name, and give it its own then. -/
def writeArchive (d : Directory) (path : String) (entries : List Entry) :
    Except RunError Unit × Directory :=
  match Path.fileName? path with
  | none => (.error (.file (.noFileName path)), d)
  | some name =>
    match d.makeUnfinished path name with
    | .error e => (.error (.file e), d)
    | .ok place =>
      let cleared := if place = .here then d.erase (Path.unfinished name) else d
      let moved : Except RunError (List Entry) := do
        let archived ← (Archive.ofEntries entries).mapError .archive
        (cleared.checkMove place path name).mapError .file
        return archived
      match moved with
      | .error e => (.error e, cleared)
      | .ok archived =>
        (.ok (), if place = .here then cleared.insert name (.archive archived) else cleared)

def disk : Disk (StateM Directory) where
  readArchive path := do return (← get).readArchive path
  writeArchive path entries := modifyGet fun d => d.writeArchive path entries

end Directory

end ClassText
