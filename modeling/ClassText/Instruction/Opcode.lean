import ClassText.Bytes

/-!
# Opcodes

The first byte of an instruction. Opcodes are grouped by the operands that
follow them. Loads and stores of the first four local variables have opcodes of
their own besides the general ones, and `wide` announces a longer form of the
instruction after it.
-/

namespace ClassText

abbrev Opcode := UInt8

namespace Opcode

@[match_pattern] def nop : Opcode := 0x00
@[match_pattern] def aconstNull : Opcode := 0x01
@[match_pattern] def iconstM1 : Opcode := 0x02
@[match_pattern] def iconst0 : Opcode := 0x03
@[match_pattern] def iconst1 : Opcode := 0x04
@[match_pattern] def iconst2 : Opcode := 0x05
@[match_pattern] def iconst3 : Opcode := 0x06
@[match_pattern] def iconst4 : Opcode := 0x07
@[match_pattern] def iconst5 : Opcode := 0x08
@[match_pattern] def lconst0 : Opcode := 0x09
@[match_pattern] def lconst1 : Opcode := 0x0a
@[match_pattern] def fconst0 : Opcode := 0x0b
@[match_pattern] def fconst1 : Opcode := 0x0c
@[match_pattern] def fconst2 : Opcode := 0x0d
@[match_pattern] def dconst0 : Opcode := 0x0e
@[match_pattern] def dconst1 : Opcode := 0x0f
@[match_pattern] def bipush : Opcode := 0x10
@[match_pattern] def sipush : Opcode := 0x11
@[match_pattern] def ldc : Opcode := 0x12
@[match_pattern] def ldcW : Opcode := 0x13
@[match_pattern] def ldc2W : Opcode := 0x14
@[match_pattern] def iload : Opcode := 0x15
@[match_pattern] def lload : Opcode := 0x16
@[match_pattern] def fload : Opcode := 0x17
@[match_pattern] def dload : Opcode := 0x18
@[match_pattern] def aload : Opcode := 0x19
@[match_pattern] def iload0 : Opcode := 0x1a
@[match_pattern] def aload3 : Opcode := 0x2d
@[match_pattern] def iaload : Opcode := 0x2e
@[match_pattern] def laload : Opcode := 0x2f
@[match_pattern] def faload : Opcode := 0x30
@[match_pattern] def daload : Opcode := 0x31
@[match_pattern] def aaload : Opcode := 0x32
@[match_pattern] def baload : Opcode := 0x33
@[match_pattern] def caload : Opcode := 0x34
@[match_pattern] def saload : Opcode := 0x35
@[match_pattern] def istore : Opcode := 0x36
@[match_pattern] def lstore : Opcode := 0x37
@[match_pattern] def fstore : Opcode := 0x38
@[match_pattern] def dstore : Opcode := 0x39
@[match_pattern] def astore : Opcode := 0x3a
@[match_pattern] def istore0 : Opcode := 0x3b
@[match_pattern] def astore3 : Opcode := 0x4e
@[match_pattern] def iastore : Opcode := 0x4f
@[match_pattern] def lastore : Opcode := 0x50
@[match_pattern] def fastore : Opcode := 0x51
@[match_pattern] def dastore : Opcode := 0x52
@[match_pattern] def aastore : Opcode := 0x53
@[match_pattern] def bastore : Opcode := 0x54
@[match_pattern] def castore : Opcode := 0x55
@[match_pattern] def sastore : Opcode := 0x56
@[match_pattern] def pop : Opcode := 0x57
@[match_pattern] def pop2 : Opcode := 0x58
@[match_pattern] def dup : Opcode := 0x59
@[match_pattern] def dupX1 : Opcode := 0x5a
@[match_pattern] def dupX2 : Opcode := 0x5b
@[match_pattern] def dup2 : Opcode := 0x5c
@[match_pattern] def dup2X1 : Opcode := 0x5d
@[match_pattern] def dup2X2 : Opcode := 0x5e
@[match_pattern] def swap : Opcode := 0x5f
@[match_pattern] def iadd : Opcode := 0x60
@[match_pattern] def ladd : Opcode := 0x61
@[match_pattern] def fadd : Opcode := 0x62
@[match_pattern] def dadd : Opcode := 0x63
@[match_pattern] def isub : Opcode := 0x64
@[match_pattern] def lsub : Opcode := 0x65
@[match_pattern] def fsub : Opcode := 0x66
@[match_pattern] def dsub : Opcode := 0x67
@[match_pattern] def imul : Opcode := 0x68
@[match_pattern] def lmul : Opcode := 0x69
@[match_pattern] def fmul : Opcode := 0x6a
@[match_pattern] def dmul : Opcode := 0x6b
@[match_pattern] def idiv : Opcode := 0x6c
@[match_pattern] def ldiv : Opcode := 0x6d
@[match_pattern] def fdiv : Opcode := 0x6e
@[match_pattern] def ddiv : Opcode := 0x6f
@[match_pattern] def irem : Opcode := 0x70
@[match_pattern] def lrem : Opcode := 0x71
@[match_pattern] def frem : Opcode := 0x72
@[match_pattern] def drem : Opcode := 0x73
@[match_pattern] def ineg : Opcode := 0x74
@[match_pattern] def lneg : Opcode := 0x75
@[match_pattern] def fneg : Opcode := 0x76
@[match_pattern] def dneg : Opcode := 0x77
@[match_pattern] def ishl : Opcode := 0x78
@[match_pattern] def lshl : Opcode := 0x79
@[match_pattern] def ishr : Opcode := 0x7a
@[match_pattern] def lshr : Opcode := 0x7b
@[match_pattern] def iushr : Opcode := 0x7c
@[match_pattern] def lushr : Opcode := 0x7d
@[match_pattern] def iand : Opcode := 0x7e
@[match_pattern] def land : Opcode := 0x7f
@[match_pattern] def ior : Opcode := 0x80
@[match_pattern] def lor : Opcode := 0x81
@[match_pattern] def ixor : Opcode := 0x82
@[match_pattern] def lxor : Opcode := 0x83
@[match_pattern] def iinc : Opcode := 0x84
@[match_pattern] def i2l : Opcode := 0x85
@[match_pattern] def i2f : Opcode := 0x86
@[match_pattern] def i2d : Opcode := 0x87
@[match_pattern] def l2i : Opcode := 0x88
@[match_pattern] def l2f : Opcode := 0x89
@[match_pattern] def l2d : Opcode := 0x8a
@[match_pattern] def f2i : Opcode := 0x8b
@[match_pattern] def f2l : Opcode := 0x8c
@[match_pattern] def f2d : Opcode := 0x8d
@[match_pattern] def d2i : Opcode := 0x8e
@[match_pattern] def d2l : Opcode := 0x8f
@[match_pattern] def d2f : Opcode := 0x90
@[match_pattern] def i2b : Opcode := 0x91
@[match_pattern] def i2c : Opcode := 0x92
@[match_pattern] def i2s : Opcode := 0x93
@[match_pattern] def lcmp : Opcode := 0x94
@[match_pattern] def fcmpl : Opcode := 0x95
@[match_pattern] def fcmpg : Opcode := 0x96
@[match_pattern] def dcmpl : Opcode := 0x97
@[match_pattern] def dcmpg : Opcode := 0x98
@[match_pattern] def ifeq : Opcode := 0x99
@[match_pattern] def ifne : Opcode := 0x9a
@[match_pattern] def iflt : Opcode := 0x9b
@[match_pattern] def ifge : Opcode := 0x9c
@[match_pattern] def ifgt : Opcode := 0x9d
@[match_pattern] def ifle : Opcode := 0x9e
@[match_pattern] def ifIcmpeq : Opcode := 0x9f
@[match_pattern] def ifIcmpne : Opcode := 0xa0
@[match_pattern] def ifIcmplt : Opcode := 0xa1
@[match_pattern] def ifIcmpge : Opcode := 0xa2
@[match_pattern] def ifIcmpgt : Opcode := 0xa3
@[match_pattern] def ifIcmple : Opcode := 0xa4
@[match_pattern] def ifAcmpeq : Opcode := 0xa5
@[match_pattern] def ifAcmpne : Opcode := 0xa6
@[match_pattern] def goto : Opcode := 0xa7
@[match_pattern] def jsr : Opcode := 0xa8
@[match_pattern] def ret : Opcode := 0xa9
@[match_pattern] def tableSwitch : Opcode := 0xaa
@[match_pattern] def lookupSwitch : Opcode := 0xab
@[match_pattern] def ireturn : Opcode := 0xac
@[match_pattern] def lreturn : Opcode := 0xad
@[match_pattern] def freturn : Opcode := 0xae
@[match_pattern] def dreturn : Opcode := 0xaf
@[match_pattern] def areturn : Opcode := 0xb0
@[match_pattern] def returnVoid : Opcode := 0xb1
@[match_pattern] def getStatic : Opcode := 0xb2
@[match_pattern] def putStatic : Opcode := 0xb3
@[match_pattern] def getField : Opcode := 0xb4
@[match_pattern] def putField : Opcode := 0xb5
@[match_pattern] def invokeVirtual : Opcode := 0xb6
@[match_pattern] def invokeSpecial : Opcode := 0xb7
@[match_pattern] def invokeStatic : Opcode := 0xb8
@[match_pattern] def invokeInterface : Opcode := 0xb9
@[match_pattern] def invokeDynamic : Opcode := 0xba
@[match_pattern] def new : Opcode := 0xbb
@[match_pattern] def newArray : Opcode := 0xbc
@[match_pattern] def anewArray : Opcode := 0xbd
@[match_pattern] def arrayLength : Opcode := 0xbe
@[match_pattern] def athrow : Opcode := 0xbf
@[match_pattern] def checkCast : Opcode := 0xc0
@[match_pattern] def instanceOf : Opcode := 0xc1
@[match_pattern] def monitorEnter : Opcode := 0xc2
@[match_pattern] def monitorExit : Opcode := 0xc3
@[match_pattern] def wide : Opcode := 0xc4
@[match_pattern] def multianewArray : Opcode := 0xc5
@[match_pattern] def ifNull : Opcode := 0xc6
@[match_pattern] def ifNonNull : Opcode := 0xc7
@[match_pattern] def gotoW : Opcode := 0xc8
@[match_pattern] def jsrW : Opcode := 0xc9

def between (low high op : Opcode) : Bool :=
  low.toNat ≤ op.toNat && op.toNat ≤ high.toNat

/-- Instructions without operands. -/
def isSimple (op : Opcode) : Bool :=
  between nop dconst1 op || between iaload saload op || between iastore lxor op ||
    between i2l dcmpg op || between ireturn returnVoid op ||
    op == arrayLength || op == athrow || op == monitorEnter || op == monitorExit

/-- Loads and stores of local variables, and `ret`, in their general form. -/
def isSlot (op : Opcode) : Bool :=
  between iload aload op || between istore astore op || op == ret

/-- Jumps with a displacement of sixteen bits. -/
def isShortBranch (op : Opcode) : Bool :=
  between ifeq jsr op || op == ifNull || op == ifNonNull

/-- Jumps with a displacement of thirty-two bits. -/
def isLongBranch (op : Opcode) : Bool :=
  op == gotoW || op == jsrW

/-- Instructions whose operand is a constant, and nothing else. -/
def isConstantRef (op : Opcode) : Bool :=
  between getStatic invokeStatic op || op == new || op == anewArray || op == checkCast ||
    op == instanceOf

/-- The general opcode and the variable of a load or store that names its variable itself. -/
def ofShortSlot? (op : Opcode) : Option (Opcode × UInt16) :=
  if between iload0 aload3 op then
    let k := op.toNat - iload0.toNat
    some (.ofNat (iload.toNat + k / 4), .ofNat (k % 4))
  else if between istore0 astore3 op then
    let k := op.toNat - istore0.toNat
    some (.ofNat (istore.toNat + k / 4), .ofNat (k % 4))
  else none

/-- The opcode of a load or store that names its variable, one of the first four, itself. -/
def shortSlot (op : Opcode) (index : UInt16) : Opcode :=
  if op.toNat ≤ aload.toNat then .ofNat (iload0.toNat + (op.toNat - iload.toNat) * 4 + index.toNat)
  else .ofNat (istore0.toNat + (op.toNat - istore.toNat) * 4 + index.toNat)

def isUnconditional (op : Opcode) : Bool :=
  op == goto || op == gotoW

/-- Does this instruction without operands leave the method? -/
def leavesMethod (op : Opcode) : Bool :=
  between ireturn returnVoid op || op == athrow

def isSubroutine (op : Opcode) : Bool :=
  op == jsr || op == jsrW || op == ret

end Opcode

end ClassText
