import ClassText.Name

/-!
# Class hierarchies

Where classes stand: below which superclass, and below which interfaces. A
hierarchy knows the classes it was given, and besides them those of some
libraries. A class that is in neither is a gap, and every question says what
it answers when it runs into one.
-/

namespace ClassText

/-- A class or an interface and what it is directly below. -/
structure ClassInfo where
  name : String
  superclass : Option String
  interfaces : List String
  isInterface : Bool
deriving DecidableEq, Repr

namespace ClassInfo

def supertypes (info : ClassInfo) : List String :=
  info.superclass.toList ++ info.interfaces

end ClassInfo

structure Hierarchy where
  /-- The classes that were added, no two of them with one name. -/
  classes : List ClassInfo
  /-- The classes of libraries under the names by which they are found; the first of a name
  counts. -/
  library : List (String × ClassInfo)
deriving DecidableEq, Repr

namespace Hierarchy

/-- The class of a name. Classes that were added come before those of libraries. -/
def resolve? (h : Hierarchy) (name : String) : Option ClassInfo :=
  (h.classes.find? (·.name == name)).or ((h.library.find? (·.1 == name)).map (·.2))

/-- Add a class, unless there is one of this name already. -/
def add (h : Hierarchy) (info : ClassInfo) : Hierarchy :=
  if h.classes.any (·.name == info.name) then h
  else { h with classes := h.classes ++ [info] }

/-- Add classes of a library, behind those of earlier libraries. -/
def addLibrary (h : Hierarchy) (found : List (String × ClassInfo)) : Hierarchy :=
  { h with library := h.library ++ found }

def isInterface (h : Hierarchy) (name : String) : Bool :=
  (h.resolve? name).any (·.isInterface)

def known (h : Hierarchy) : List ClassInfo :=
  h.classes ++ h.library.map (·.2)

theorem mem_known_of_resolve? {h : Hierarchy} {name : String} {info : ClassInfo}
    (hr : h.resolve? name = some info) : info ∈ h.known := by
  simp only [resolve?, Option.or_eq_some_iff, Option.map_eq_some_iff] at hr
  simp only [known, List.mem_append, List.mem_map]
  rcases hr with hr | ⟨_, entry, hr, rfl⟩
  · exact .inl (List.mem_of_find?_eq_some hr)
  · exact .inr ⟨entry, List.mem_of_find?_eq_some hr, rfl⟩

end Hierarchy

end ClassText
