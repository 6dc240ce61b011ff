import ClassText.Archive

/-!
# Disks

Where archives are kept. A run needs no more of a disk than to read an archive
and to write one, so that it can work on files as well as on a directory that
is only a value.

A path is a row of names with slashes between them. Its last name can be marked
as that of a directory, by a slash or by a single dot behind it.
-/

namespace ClassText

structure Disk (m : Type → Type) where
  readArchive : (path : String) → m (Except RunError (List Entry))
  writeArchive : (path : String) → List Entry → m (Except RunError Unit)

namespace Path

def parts (path : String) : List String :=
  (path.splitOn "/").filter (· != "")

def names (path : String) : List String :=
  (parts path).filter (· != ".")

def isAbsolute (path : String) : Bool := path.startsWith "/"

def endsInDot (path : String) : Bool := (parts path).getLast? == some "."

def marksDirectory (path : String) : Bool := path.endsWith "/" || endsInDot path

def fileName? (path : String) : Option String :=
  (names path).getLast?.filter (· != "..")

/-- A name for a file that is not finished. -/
def unfinished (name : String) : String := "." ++ name ++ ".tmp"

def trimRight (parts : List String) : List String :=
  (parts.reverse.dropWhile fun part => part == "" || part == ".").reverse

def beside (path name : String) : String :=
  let around := match (trimRight (path.splitOn "/")).dropLast with
    | [] => []
    | first :: rest => first :: trimRight rest
  "/".intercalate (around ++ [name])

def maxNameSize : Nat := 255

def maxSize : Nat := 4095

end Path

end ClassText
