import ClassText.Text.Printable

/-!
# Quoted text

A text inside a message stands in double quotes. Quotes and backslashes are
escaped, the common control characters have short names, and every other
character that is not printable is given by its code point.
-/

namespace ClassText.Text

def hex (n : Nat) : String :=
  String.ofList (Nat.toDigits 16 n)

/-- Hexadecimal digits, at least `width` of them. -/
def paddedHex (width n : Nat) : String :=
  let digits := Nat.toDigits 16 n
  String.ofList (List.replicate (width - digits.length) '0' ++ digits)

def escapeChar (c : Char) : String :=
  if c = '\x00' then "\\0"
  else if c = '\t' then "\\t"
  else if c = '\r' then "\\r"
  else if c = '\n' then "\\n"
  else if c = '"' then "\\\""
  else if c = '\\' then "\\\\"
  else if isPrintable c then c.toString
  else "\\u\x7b" ++ hex c.toNat ++ "\x7d"

def quote (text : String) : String :=
  "\"" ++ text.foldl (fun s c => s ++ escapeChar c) "" ++ "\""

end ClassText.Text
