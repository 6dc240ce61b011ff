import ClassText.Decimal.Binary

/-!
# Shortest digits

The fewest decimal digits that read back as the same floating-point number.

The reals that round to a number form an interval around it, which holds its
ends when the significand is even. For one digit, two digits and so on, the
number has two neighbours on the grid of decimals with that many digits; the
first grid with a neighbour inside the interval gives the digits, and of two
such neighbours the nearer one counts (the upper one if both are as near).
-/

namespace ClassText.Decimal

/-- The decimal `0.d₁d₂… * 10 ^ point`, without zeros at the end. -/
structure Digits where
  digits : List Nat
  point : Int
deriving DecidableEq, Repr

/-- The reals that round to a number, on a grid of steps `1 / denominator`. -/
structure Interval where
  low : Nat
  value : Nat
  high : Nat
  denominator : Nat
  closed : Bool
deriving DecidableEq, Repr

/-- The reals that round to a positive number. Below a power of two the numbers lie twice as
close, so that the interval reaches less far down. -/
def Interval.around (f : Layout) (significand : Nat) (exponent : Int) : Interval :=
  let below := if significand = f.hiddenBit ∧ exponent ≠ f.minExponent then 1 else 2
  let e := exponent - 2
  let scale := Nat.pow 2 e.toNat
  ⟨(4 * significand - below) * scale, 4 * significand * scale, (4 * significand + 2) * scale,
    Nat.pow 2 (-e).toNat, significand % 2 = 0⟩

def Interval.shift (i : Interval) (k : Int) : Interval :=
  let up := Nat.pow 10 (-k).toNat
  ⟨i.low * up, i.value * up, i.high * up, i.denominator * Nat.pow 10 k.toNat, i.closed⟩

def Interval.contains (i : Interval) (n : Nat) : Bool :=
  let x := n * i.denominator
  if i.closed then i.low ≤ x ∧ x ≤ i.high else i.low < x ∧ x < i.high

/-- The whole number inside that is nearest to the value, if one of its two neighbours is
inside. -/
def Interval.nearest? (i : Interval) : Option Nat :=
  let n := i.value / i.denominator
  let up := i.denominator ≤ 2 * (i.value % i.denominator)
  match i.contains n, i.contains (n + 1) with
  | true, true => some (if up then n + 1 else n)
  | true, false => some n
  | false, true => some (n + 1)
  | false, false => none

/-- Digits before the point of the value: the least `k` with `value < 10 ^ k`. -/
def Interval.magnitude (i : Interval) : Int :=
  if i.denominator ≤ i.value then
    ((Nat.toDigits 10 (i.value / i.denominator)).length : Int)
  else
    1 - ((Nat.toDigits 10 ((i.denominator - 1) / i.value)).length : Int)

def dropTrailingZeros (digits : List Nat) : List Nat :=
  (digits.reverse.dropWhile (· == 0)).reverse

def digitsOf (n : Nat) : List Nat :=
  (Nat.toDigits 10 n).map fun c => c.toNat - '0'.toNat

/-- The first grid with a neighbour inside the interval, of those with `count`, `count + 1`, …
digits. -/
def Interval.search (i : Interval) (magnitude : Int) (count : Nat) : Nat → Digits
  | 0 => ⟨[], 0⟩
  | tries + 1 =>
    let k := magnitude - count
    match (i.shift k).nearest? with
    | some n =>
      let digits := digitsOf n
      ⟨dropTrailingZeros digits, k + digits.length⟩
    | none => i.search magnitude (count + 1) tries

/-- The shortest digits of a positive number: seventeen digits always suffice. -/
def shortest (f : Layout) (significand : Nat) (exponent : Int) : Digits :=
  let i := Interval.around f significand exponent
  i.search i.magnitude 1 18

end ClassText.Decimal
