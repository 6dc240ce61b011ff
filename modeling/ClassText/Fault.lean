import ClassText.Constant.Format
import ClassText.Name

/-!
# What can go wrong with a class

Every failure is a cause, and its wording is in one place. The causes nest as
the work does: a class file is malformed, its frames cannot be computed, its
code cannot be assembled, or it cannot be written.
-/

namespace ClassText

inductive ClassPlace where
  | thisClass | superClass | interface
deriving DecidableEq, Repr

def ClassPlace.text : ClassPlace → String
  | thisClass => "this_class"
  | superClass => "super_class"
  | interface => "interface"

inductive Malformation where
  | unexpectedEnd
  | undecodableText (index : PoolIndex)
  | notText (index : PoolIndex)
  | notClass (index : PoolIndex)
  | notClassAt (place : ClassPlace) (index : PoolIndex)
  | unknownConstantTag (tag : UInt8)
  | unknownHandleKind (kind : UInt8)
  | poolOverrun
  | trailingBytes (count : Nat)
  | codeLength (length : Nat)
  | trailingCodeBytes
  | rangeOffset (offset : Nat)
  | jumpTarget (offset target : Nat)
  | jumpBeforeStart (offset : Nat)
  | wideOpcode (opcode : UInt8) (offset : Nat)
  | tableSwitchBounds (offset : Nat) (high low : Int)
  | lookupSwitchCount (offset : Nat)
  | unknownOpcode (opcode : UInt8) (offset : Nat)
  | reservedFrame (tag : UInt8)
  | unknownTypeTag (tag : UInt8)
  | badName (fault : NameFault)
deriving DecidableEq, Repr

def opcodeText (opcode : UInt8) : String :=
  "0x" ++ Text.paddedHex 2 opcode.toNat

def Malformation.message : Malformation → String
  | unexpectedEnd => "unexpected end of input"
  | undecodableText index => "constant #" ++ toString index.toNat ++ " is not valid modified UTF-8"
  | notText index => "constant #" ++ toString index.toNat ++ " is not a UTF-8 constant"
  | notClass index => "constant #" ++ toString index.toNat ++ " is not a class constant"
  | notClassAt place index =>
    place.text ++ " #" ++ toString index.toNat ++ " is not a class constant"
  | unknownConstantTag tag => "unknown constant pool tag " ++ toString tag.toNat
  | unknownHandleKind kind => "invalid method handle kind " ++ toString kind.toNat
  | poolOverrun => "last constant pool entry overruns the pool"
  | trailingBytes count => toString count ++ " trailing bytes after class file"
  | codeLength length => "invalid code length " ++ toString length
  | trailingCodeBytes => "trailing bytes after code attribute"
  | rangeOffset offset =>
    "exception table refers to offset " ++ toString offset ++ " which is not an instruction"
  | jumpTarget offset target =>
    "instruction at offset " ++ toString offset ++ " jumps to invalid offset " ++ toString target
  | jumpBeforeStart offset =>
    "instruction at offset " ++ toString offset ++ " jumps before the start of the code"
  | wideOpcode opcode offset =>
    "opcode " ++ opcodeText opcode ++ " cannot follow wide at offset " ++ toString offset
  | tableSwitchBounds offset high low =>
    "tableswitch at offset " ++ toString offset ++ " has high " ++ toString high ++
      " below low " ++ toString low
  | lookupSwitchCount offset =>
    "lookupswitch at offset " ++ toString offset ++ " has negative pair count"
  | unknownOpcode opcode offset =>
    "unknown opcode " ++ opcodeText opcode ++ " at offset " ++ toString offset
  | reservedFrame tag => "reserved stack map frame type " ++ toString tag.toNat
  | unknownTypeTag tag => "invalid verification type tag " ++ toString tag.toNat
  | badName fault => fault.message

inductive FrameFault where
  | emptyStack
  /-- A value of this width stands where one of another width is needed. -/
  | wrongWidth (width : Nat)
  | notArray
  | badIndex
  | wrongType
  | missingConstant (index : PoolIndex)
  | notLoadable (constant : Constant)
  | badDescriptor (text : String)
  | stackHeights (expected found : Nat)
  | unreachable
  | subroutine
  | uninitialized
  | fallsOff
  /-- The frames have not settled yet. -/
  | unsettled
deriving DecidableEq, Repr

def FrameFault.message : FrameFault → String
  | emptyStack => "operand stack underflow"
  | wrongWidth width => "value of width " ++ toString width ++ " where another was expected"
  | notArray => "expected an array type"
  | badIndex => "local variable index out of range"
  | wrongType => "unexpected value type"
  | missingConstant index => "missing constant #" ++ toString index.toNat
  | notLoadable constant => "constant " ++ constant.text ++ " cannot be loaded"
  | badDescriptor text => "bad descriptor " ++ Text.quote text
  | stackHeights expected found =>
    "stack height " ++ toString found ++ " does not match " ++ toString expected ++
      " at merge point"
  | unreachable => "unreachable code"
  | subroutine => "jsr/ret subroutines are not supported"
  | uninitialized => "uninitialized object used before its constructor call"
  | fallsOff => "execution falls off the end of the code"
  | unsettled => "frames do not settle"

inductive AssemblyFault where
  | jumpOutOfRange (offset target : Nat)
  | codeTooLong (length : Nat)
deriving DecidableEq, Repr

def AssemblyFault.message : AssemblyFault → String
  | jumpOutOfRange offset target =>
    "jump from offset " ++ toString offset ++ " to " ++ toString target ++
      " does not fit in 16 bits"
  | codeTooLong length => "method code of " ++ toString length ++ " bytes exceeds 65535 bytes"

inductive WriteFault where
  | tooMany (count : Nat)
  | textTooLong (length : Nat)
  | code (fault : AssemblyFault)
  /-- A frame can drop one to three locals, not this many. -/
  | chop (count : Nat)
  /-- A frame can add one to three locals, not this many. -/
  | append (count : Nat)
deriving DecidableEq, Repr

def WriteFault.message : WriteFault → String
  | tooMany count => toString count ++ " elements do not fit in a u16 count"
  | textTooLong length => "UTF-8 constant of " ++ toString length ++ " bytes is too long"
  | code fault => fault.message
  | chop count => "a frame cannot chop " ++ toString count ++ " locals"
  | append count => "a frame cannot append " ++ toString count ++ " locals"

inductive ClassError where
  | notClassFile
  | malformed (cause : Malformation)
  /-- There is no room for the constant, which would have come at the index. -/
  | poolOverflow (constant : Constant) (index : Nat)
  | textTooLong (length : Nat)
  /-- No frames for a method, with the offset of the instruction where that shows. -/
  | frames (method : String) (offset : Option Nat) (fault : FrameFault)
  | assembly (fault : AssemblyFault)
  | write (fault : WriteFault)
deriving DecidableEq, Repr

def ClassError.message : ClassError → String
  | notClassFile => "not a class file"
  | malformed cause => "malformed class file: " ++ cause.message
  | poolOverflow constant index =>
    "constant pool overflow: no room for " ++ constant.text ++ " at constant #" ++ toString index
  | textTooLong length => "UTF-8 constant of " ++ toString length ++ " bytes exceeds 65535 bytes"
  | frames method (some offset) fault =>
    "cannot compute frames for " ++ method ++ " at offset " ++ toString offset ++ ": " ++
      fault.message
  | frames method none fault => "cannot compute frames for " ++ method ++ ": " ++ fault.message
  | assembly fault => fault.message
  | write fault => "I/O error: " ++ fault.message

end ClassText
