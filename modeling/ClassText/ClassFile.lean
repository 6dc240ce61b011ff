import ClassText.Flags
import ClassText.Version

/-!
# Class files

A class with its constants, fields, methods and attributes. Everything is kept;
only the code of methods is taken apart.
-/

namespace ClassText

structure Member (β : Type) where
  flags : Flags
  name : PoolIndex
  descriptor : PoolIndex
  attributes : List (Attribute β)
deriving DecidableEq, Repr

abbrev Field := Member Bytes

inductive MethodAttributeBody where
  | code (code : Code)
  | raw (bytes : Bytes)
deriving DecidableEq, Repr

abbrev Method := Member MethodAttributeBody

namespace Method

def code? (method : Method) : Option Code :=
  method.attributes.findSome? fun a => match a.body with
    | .code code => some code
    | .raw _ => none

/-- The attributes with other code in the first place where there is code. -/
def setCodeIn (code : Code) :
    List (Attribute MethodAttributeBody) → List (Attribute MethodAttributeBody)
  | [] => []
  | ⟨name, .code _⟩ :: rest => ⟨name, .code code⟩ :: rest
  | a :: rest => a :: setCodeIn code rest

def setCode (method : Method) (code : Code) : Method :=
  { method with attributes := setCodeIn code method.attributes }

def nameText (method : Method) (pool : ConstantPool) : Except ClassError String :=
  pool.text method.name

def descriptorText (method : Method) (pool : ConstantPool) : Except ClassError String :=
  pool.text method.descriptor

def isStatic (method : Method) : Bool := Flags.isStatic method.flags

end Method

structure ClassFile where
  version : Version
  pool : ConstantPool
  flags : Flags
  thisClass : PoolIndex
  superClass : Option PoolIndex
  interfaces : List PoolIndex
  fields : List Field
  methods : List Method
  attributes : List (Attribute Bytes)
deriving DecidableEq, Repr

namespace ClassFile

def name (c : ClassFile) : Except ClassError String :=
  c.pool.className c.thisClass

def superName (c : ClassFile) : Except ClassError (Option String) :=
  c.superClass.mapM c.pool.className

def interfaceNames (c : ClassFile) : Except ClassError (List String) :=
  c.interfaces.mapM c.pool.className

def isInterface (c : ClassFile) : Bool := Flags.isInterface c.flags

/-- Are the classes equal, with their numbers compared as numbers? What is not a number differs
from itself. -/
def hasEqualValues (c other : ClassFile) : Bool :=
  decide (c = other) && !c.pool.entries.any fun entry => entry.2.isNaN

end ClassFile

end ClassText
