import ClassText.Constant
import ClassText.Decimal.Text
import ClassText.Text.Quoted

/-!
# Constants in messages

How a message shows a constant: its kind with its contents, where an index is
wrapped in the kind of constant that it points to.
-/

namespace ClassText.Constant

open Decimal

def plainIndexText (i : PoolIndex) : String :=
  "ConstantIndex(" ++ toString i.toNat ++ ")"

def utf8IndexText (i : PoolIndex) : String :=
  "Utf8ConstantIndex(" ++ plainIndexText i ++ ")"

def classIndexText (i : PoolIndex) : String :=
  "ClassConstantIndex(" ++ plainIndexText i ++ ")"

def nameAndTypeIndexText (i : PoolIndex) : String :=
  "NameAndTypeConstantIndex(" ++ plainIndexText i ++ ")"

def byteListText (bytes : Bytes) : String :=
  "[" ++ ", ".intercalate (bytes.map fun b => toString b.toNat) ++ "]"

def fieldsText (fields : List (String × String)) : String :=
  " \x7b " ++ ", ".intercalate (fields.map fun f => f.1 ++ ": " ++ f.2) ++ " \x7d"

def text : Constant → String
  | utf8 text => "Utf8(" ++ Text.quote text ++ ")"
  | undecodable bytes => "InvalidUtf8(" ++ byteListText bytes ++ ")"
  | integer value => "Integer(" ++ toString value.toInt ++ ")"
  | float bits => "Float(" ++ annotatedText .single bits.toNat ++ ")"
  | long value => "Long(" ++ toString value.toInt ++ ")"
  | double bits => "Double(" ++ annotatedText .double bits.toNat ++ ")"
  | classRef name => "Class(" ++ utf8IndexText name ++ ")"
  | string text => "String(" ++ utf8IndexText text ++ ")"
  | field owner pair =>
    "FieldRef(" ++ classIndexText owner ++ ", " ++ nameAndTypeIndexText pair ++ ")"
  | method owner pair ofInterface =>
    "MethodRef" ++ fieldsText [("class", classIndexText owner),
      ("name_and_type", nameAndTypeIndexText pair),
      ("is_interface", toString ofInterface)]
  | nameAndType name descriptor =>
    "NameAndType" ++ fieldsText [("name", utf8IndexText name),
      ("descriptor", utf8IndexText descriptor)]
  | methodHandle kind member =>
    "MethodHandle" ++ fieldsText [("handle_kind", kind.name), ("member", plainIndexText member)]
  | methodType descriptor =>
    "MethodType" ++ fieldsText [("descriptor", utf8IndexText descriptor)]
  | dynamic bootstrap pair =>
    "Dynamic" ++ fieldsText [("bootstrap_method", toString bootstrap.toNat),
      ("name_and_type", nameAndTypeIndexText pair)]
  | invokeDynamic bootstrap pair =>
    "InvokeDynamic" ++ fieldsText [("bootstrap_method", toString bootstrap.toNat),
      ("method_descriptor", nameAndTypeIndexText pair)]
  | moduleRef name => "Module(" ++ utf8IndexText name ++ ")"
  | packageRef name => "Package(" ++ utf8IndexText name ++ ")"

end ClassText.Constant
