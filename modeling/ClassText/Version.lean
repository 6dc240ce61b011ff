import ClassText.Code

/-!
# Versions

Class files have a version. From one version on, code is only accepted with its
frames; one version earlier they may be missing.
-/

namespace ClassText

structure Version where
  major : UInt16
  minor : UInt16
deriving DecidableEq, Repr

namespace Version

def atLeast (version : Version) (major : Nat) : Bool :=
  major ≤ version.major.toNat

/-- Must code that is laid out anew have frames in this version? -/
def needsFrames (version : Version) (code : Code) (pool : ConstantPool) : Bool :=
  version.atLeast 51 ||
    (version.atLeast 50 && (code.attribute? pool CodeAttribute.frameTable).isSome)

end Version

end ClassText
