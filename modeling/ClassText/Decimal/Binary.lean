/-!
# Binary floating point

A floating-point number is kept as its bits. Everything the library decides
about one (its decimal text, its order, its product with a power of two) is
decided on the exact value behind the bits, an integer times a power of two.
-/

namespace ClassText.Decimal

abbrev SingleBits := UInt32

abbrev DoubleBits := UInt64

structure Layout where
  /-- Bits of the significand, with the leading bit that is not stored. -/
  precision : Nat
  exponentBits : Nat
deriving DecidableEq, Repr

def Layout.single : Layout := ⟨24, 8⟩

def Layout.double : Layout := ⟨53, 11⟩

namespace Layout

def bias (f : Layout) : Nat := Nat.pow 2 (f.exponentBits - 1) - 1

/-- The exponent field of infinities and of what is not a number. -/
def maxField (f : Layout) : Nat := Nat.pow 2 f.exponentBits - 1

/-- One in the lowest place of the exponent field. -/
def hiddenBit (f : Layout) : Nat := Nat.pow 2 (f.precision - 1)

/-- The exponent of the least significant bit of the smallest numbers. -/
def minExponent (f : Layout) : Int := 1 - (f.bias : Int) - (f.precision - 1 : Nat)

/-- The sign bit alone, the bits of negative zero. -/
def signBit (f : Layout) : Nat := Nat.pow 2 (f.precision - 1 + f.exponentBits)

def infinity (f : Layout) : Nat := f.maxField * f.hiddenBit

/-- The bits given to a result that is not a number. -/
def notANumber (f : Layout) : Nat := f.infinity + f.hiddenBit / 2

end Layout

inductive Number where
  | notANumber
  | infinite (negative : Bool)
  /-- The significand times two to the exponent. -/
  | finite (negative : Bool) (significand : Nat) (exponent : Int)
deriving DecidableEq, Repr

def Number.ofBits (f : Layout) (bits : Nat) : Number :=
  let negative := f.signBit ≤ bits
  let field := bits / f.hiddenBit % Nat.pow 2 f.exponentBits
  let fraction := bits % f.hiddenBit
  if field = f.maxField then
    if fraction = 0 then .infinite negative else .notANumber
  else if field = 0 then .finite negative fraction f.minExponent
  else .finite negative (f.hiddenBit + fraction) (f.minExponent + (field - 1 : Nat))

def isSingleNaN (bits : SingleBits) : Bool :=
  Number.ofBits .single bits.toNat == .notANumber

def isDoubleNaN (bits : DoubleBits) : Bool :=
  Number.ofBits .double bits.toNat == .notANumber

end ClassText.Decimal
