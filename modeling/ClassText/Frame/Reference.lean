import ClassText.ConstantPool
import ClassText.Descriptor.Parser
import ClassText.Frame.Type

/-!
# What instructions refer to

An instruction names its class, field, method or loaded value by an index. Here
the types behind the index are found; a constant of the wrong kind counts as
missing.
-/

namespace ClassText.ConstantPool

def referredText (pool : ConstantPool) (index : PoolIndex) : Except FrameFault String :=
  match pool.text? index with
  | some text => .ok text
  | none => .error (.missingConstant index)

def referredMember (pool : ConstantPool) (index : PoolIndex) :
    Except FrameFault (String × String) :=
  match pool.get? index with
  | some (.nameAndType name descriptor) => do
    return (← pool.referredText name, ← pool.referredText descriptor)
  | _ => .error (.missingConstant index)

def readDescriptor {α : Type} (parse : String → Except DescriptorFault α) (text : String) :
    Except FrameFault α :=
  match parse text with
  | .ok type => .ok type
  | .error _ => .error (.badDescriptor text)

/-- The class or array type at an index. -/
def referredClass (pool : ConstantPool) (index : PoolIndex) : Except FrameFault RefType :=
  match pool.get? index with
  | some (.classRef name) => do readDescriptor RefType.ofConstantText (← pool.referredText name)
  | _ => .error (.missingConstant index)

def referredField (pool : ConstantPool) (index : PoolIndex) : Except FrameFault FieldType :=
  match pool.get? index with
  | some (.field _ member) => do
    readDescriptor FieldType.parse (← pool.referredMember member).2
  | _ => .error (.missingConstant index)

def referredMethod (pool : ConstantPool) (index : PoolIndex) :
    Except FrameFault (String × MethodType) :=
  match pool.get? index with
  | some (.method _ member _) => do
    let (name, descriptor) ← pool.referredMember member
    return (name, ← readDescriptor MethodType.parse descriptor)
  | _ => .error (.missingConstant index)

def referredCallSite (pool : ConstantPool) (index : PoolIndex) : Except FrameFault MethodType :=
  match pool.get? index with
  | some (.invokeDynamic _ member) => do
    readDescriptor MethodType.parse (← pool.referredMember member).2
  | _ => .error (.missingConstant index)

/-- The type of the value that loading the constant at an index gives. -/
def loadedType (pool : ConstantPool) (index : PoolIndex) : Except FrameFault LiveType :=
  match pool.get? index with
  | none => .error (.missingConstant index)
  | some (.integer _) => .ok .integer
  | some (.float _) => .ok .float
  | some (.long _) => .ok .long
  | some (.double _) => .ok .double
  | some (.string _) => .ok (LiveType.ofClass ClassName.string)
  | some (.classRef _) => .ok (LiveType.ofClass ClassName.classType)
  | some (.methodType _) => .ok (LiveType.ofClass ClassName.methodType)
  | some (.methodHandle ..) => .ok (LiveType.ofClass ClassName.methodHandle)
  | some (.dynamic _ member) => do
    return LiveType.ofField
      (← readDescriptor FieldType.parse (← pool.referredMember member).2)
  | some constant => .error (.notLoadable constant)

end ClassText.ConstantPool
