import ClassText.Decimal.Binary

/-!
# Reading decimal numbers

A decimal number is an optional sign, digits with an optional point among them,
and an optional exponent; `inf`, `infinity` and `nan` are numbers too, in any
mix of cases. It is read as the nearest floating-point number, of two nearest
ones as that with an even significand. Of an exponent only so many digits count
as it takes to leave the range of every format.
-/

namespace ClassText.Decimal

/-- The nearest whole number to a quotient; of two the even one. -/
def roundHalfEven (numerator denominator : Nat) : Nat :=
  let n := numerator / denominator
  let r := 2 * (numerator % denominator)
  if r < denominator then n
  else if denominator < r then n + 1
  else n + n % 2

def bitsOfQuotient (f : Layout) (numerator denominator : Nat) : Nat :=
  let size : Int := (Nat.log2 numerator : Int) - (Nat.log2 denominator : Int)
  -- the quotient lies between `2 ^ (size - 1)` and `2 ^ (size + 1)`
  let top : Int :=
    if denominator * Nat.pow 2 size.toNat ≤ numerator * Nat.pow 2 (-size).toNat then size else size - 1
  let e := max (top - (f.precision - 1 : Nat)) f.minExponent
  let m := roundHalfEven (numerator * Nat.pow 2 (-e).toNat) (denominator * Nat.pow 2 e.toNat)
  -- a carry out of the significand moves on into the exponent field
  min ((e - f.minExponent).toNat * f.hiddenBit + m) f.infinity

/-- The bits of `digits * 10 ^ exponent`. Far outside the range of the format, that is an
infinity or zero. -/
def bitsOfDecimal (f : Layout) (digits : Nat) (exponent : Int) : Nat :=
  if digits = 0 then 0
  else
    let magnitude := ((Nat.toDigits 10 digits).length : Int) + exponent
    if 400 < magnitude then f.infinity
    else if magnitude < -400 then 0
    else bitsOfQuotient f (digits * Nat.pow 10 exponent.toNat) (Nat.pow 10 (-exponent).toNat)

def digitsValue (cs : List Char) : Nat :=
  cs.foldl (fun n c => n * 10 + (c.toNat - '0'.toNat)) 0

/-- More digits than there are in the number halfway between two neighbours of any format. -/
def significantDigits : Nat := 800

/-- The value of some digits, and how many places were cut off behind them. Of places cut off,
the last digit of the value tells whether they are all zero. -/
def significantValue (cs : List Char) : Nat × Nat :=
  let cs := cs.dropWhile (· == '0')
  let beyond := cs.drop significantDigits
  if beyond.isEmpty then (digitsValue cs, 0)
  else
    let last := if beyond.all (· == '0') then '0' else '1'
    (digitsValue (cs.take significantDigits ++ [last]), beyond.length - 1)

/-- The size of an exponent from which on no further digit counts. -/
def exponentLimit : Nat := 65536

/-- The value of the digits of an exponent, up to the one with which it reaches the limit. -/
def exponentValue (cs : List Char) : Nat :=
  cs.foldl (fun n c => if n < exponentLimit then n * 10 + (c.toNat - '0'.toNat) else n) 0

def takeSign : List Char → Bool × List Char
  | '-' :: rest => (true, rest)
  | '+' :: rest => (false, rest)
  | cs => (false, cs)

def readExponent? : List Char → Option Int
  | [] => some 0
  | c :: rest =>
    if c = 'e' ∨ c = 'E' then
      let (negative, digits) := takeSign rest
      if digits ≠ [] ∧ digits.all Char.isDigit then
        some (if negative then -(exponentValue digits : Int) else exponentValue digits)
      else none
    else none

def readUnsigned? (f : Layout) (cs : List Char) : Option Nat :=
  let lower := String.ofList (cs.map Char.toLower)
  if lower = "nan" then some f.notANumber
  else if lower = "inf" ∨ lower = "infinity" then some f.infinity
  else
    let whole := cs.takeWhile Char.isDigit
    let rest := cs.dropWhile Char.isDigit
    let (fraction, rest) := match rest with
      | '.' :: rest => (rest.takeWhile Char.isDigit, rest.dropWhile Char.isDigit)
      | _ => ([], rest)
    if whole = [] ∧ fraction = [] then none
    else do
      let exponent ← readExponent? rest
      let (value, cut) := significantValue (whole ++ fraction)
      return bitsOfDecimal f value (exponent + cut - fraction.length)

/-- The bits of the number that a text spells, if it spells one. -/
def read? (f : Layout) (text : String) : Option Nat :=
  let (negative, rest) := takeSign text.toList
  (readUnsigned? f rest).map fun bits => if negative then f.signBit + bits else bits

end ClassText.Decimal
