import ClassText.ClassFile.Codec
import ClassText.Hierarchy

/-!
# Classes found in files

What a hierarchy needs to know stands in the class files themselves. Of a
library, the entries that hold a class count, each under the name of its entry.
-/

namespace ClassText

namespace ClassInfo

def checkedName (name : String) : Except ClassError String :=
  (ClassName.check name).mapError fun fault => .malformed (.badName fault)

def ofClassFile (c : ClassFile) : Except ClassError ClassInfo := do
  let name ← checkedName (← c.name)
  let superclass ← (← c.superName).mapM checkedName
  let interfaces ← (← c.interfaceNames).mapM checkedName
  return ⟨name, superclass, interfaces, c.isInterface⟩

/-- Where the class that some bytes hold stands. -/
def ofBytes? (bytes : Bytes) : Option ClassInfo :=
  ((ClassFile.ofBytes bytes).bind ofClassFile).toOption

end ClassInfo

end ClassText
