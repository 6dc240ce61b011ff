import ClassText.Bytes
import ClassText.Decimal.Binary
import ClassText.Text.ModifiedUtf8

/-!
# Constants

The entries of a constant pool. Numbers are kept as their bits, and a text
whose bytes do not decode is kept as those bytes.
-/

namespace ClassText

open Decimal

abbrev PoolIndex := UInt16

inductive HandleKind where
  | getField | getStatic | putField | putStatic
  | invokeVirtual | invokeStatic | invokeSpecial | newInvokeSpecial | invokeInterface
deriving DecidableEq, Repr

namespace HandleKind

def all : List HandleKind := [getField, getStatic, putField, putStatic, invokeVirtual,
  invokeStatic, invokeSpecial, newInvokeSpecial, invokeInterface]

def code : HandleKind → UInt8
  | getField => 1
  | getStatic => 2
  | putField => 3
  | putStatic => 4
  | invokeVirtual => 5
  | invokeStatic => 6
  | invokeSpecial => 7
  | newInvokeSpecial => 8
  | invokeInterface => 9

def ofCode? (code : UInt8) : Option HandleKind :=
  all.find? (·.code == code)

def name : HandleKind → String
  | getField => "GetField"
  | getStatic => "GetStatic"
  | putField => "PutField"
  | putStatic => "PutStatic"
  | invokeVirtual => "InvokeVirtual"
  | invokeStatic => "InvokeStatic"
  | invokeSpecial => "InvokeSpecial"
  | newInvokeSpecial => "NewInvokeSpecial"
  | invokeInterface => "InvokeInterface"

theorem ofCode?_code (k : HandleKind) : ofCode? k.code = some k := by
  cases k <;> rfl

end HandleKind

inductive Constant where
  | utf8 (text : String)
  /-- A text whose bytes do not decode. -/
  | undecodable (bytes : Bytes)
  | integer (value : Int32)
  | float (bits : SingleBits)
  | long (value : Int64)
  | double (bits : DoubleBits)
  | classRef (name : PoolIndex)
  | string (text : PoolIndex)
  | field (owner nameAndType : PoolIndex)
  | method (owner nameAndType : PoolIndex) (ofInterface : Bool)
  | nameAndType (name descriptor : PoolIndex)
  | methodHandle (kind : HandleKind) (member : PoolIndex)
  | methodType (descriptor : PoolIndex)
  | dynamic (bootstrap : UInt16) (nameAndType : PoolIndex)
  | invokeDynamic (bootstrap : UInt16) (nameAndType : PoolIndex)
  | moduleRef (name : PoolIndex)
  | packageRef (name : PoolIndex)
deriving DecidableEq, Repr

namespace Constant

/-- Indices that a constant takes in the pool. -/
def width : Constant → Nat
  | long _ | double _ => 2
  | _ => 1

/-- Is it a number that differs from itself? -/
def isNaN : Constant → Bool
  | float bits => isSingleNaN bits
  | double bits => isDoubleNaN bits
  | _ => false

theorem width_pos (c : Constant) : 0 < c.width := by
  cases c <;> simp [width]

theorem width_le_two (c : Constant) : c.width ≤ 2 := by
  cases c <;> simp [width]

end Constant

end ClassText
