import ClassText.Decimal.Text

/-!
# Probabilities

A probability is a double-precision number from zero to one. A choice with a
probability is made by a random word of sixty-four bits: it falls below a
threshold in that share of all cases, as exactly as sixty-four bits allow.
-/

namespace ClassText

open Decimal

abbrev Probability := DoubleBits

namespace Probability

def half : Probability := 0x3fe0000000000000

def one : Probability := 0x3ff0000000000000

def value (p : Probability) : Number := .ofBits .double p.toNat

/-- Does the number lie between zero and one? Negative zero does. -/
def isValid (p : Probability) : Bool :=
  match p.value with
  | .finite negative m e => m == 0 || (!negative && m * Nat.pow 2 e.toNat ≤ Nat.pow 2 (-e).toNat)
  | _ => false

def isCertain (p : Probability) : Bool :=
  match p.value with
  | .finite negative m e => !negative && Nat.pow 2 (-e).toNat ≤ m * Nat.pow 2 e.toNat
  | .infinite negative => !negative
  | .notANumber => false

/-- The number times `2 ^ 64`, without its fraction. -/
def threshold (p : Probability) : Nat :=
  match p.value with
  | .finite false m e => m * Nat.pow 2 (e + 64).toNat / Nat.pow 2 (-(e + 64)).toNat
  | _ => 0

def text (p : Probability) : String := plainText .double p.toNat

end Probability

end ClassText
