import ClassText.Decimal.Shortest

/-!
# Decimal text of floating-point numbers

Two ways to write a number down with its shortest digits. Plain text never uses
an exponent and shows no point for a whole number. Annotated text always shows
a point, except that very small and very large numbers get an exponent.
-/

namespace ClassText.Decimal

def digitText (digits : List Nat) : String :=
  String.ofList (digits.map fun d => Char.ofNat ('0'.toNat + d))

def zeros (n : Nat) : String :=
  String.ofList (List.replicate n '0')

def positional (whole : String) (d : Digits) : String :=
  let count := d.digits.length
  if d.point ≤ 0 then "0." ++ zeros (-d.point).toNat ++ digitText d.digits
  else
    let p := d.point.toNat
    if p < count then digitText (d.digits.take p) ++ "." ++ digitText (d.digits.drop p)
    else digitText d.digits ++ zeros (p - count) ++ whole

def scientific (d : Digits) : String :=
  let exponent := "e" ++ toString (d.point - 1)
  match d.digits with
  | [] => "0" ++ exponent
  | [a] => digitText [a] ++ exponent
  | a :: rest => digitText [a] ++ "." ++ digitText rest ++ exponent

def signText (negative : Bool) : String := if negative then "-" else ""

/-- Plain text: positional, whole numbers without a point. -/
def plainText (f : Layout) (bits : Nat) : String :=
  match Number.ofBits f bits with
  | .notANumber => "NaN"
  | .infinite negative => signText negative ++ "inf"
  | .finite negative m e =>
    signText negative ++ if m = 0 then "0" else positional "" (shortest f m e)

/-- Annotated text: positional with a point from `1e-4` up to `1e16`, scientific beyond. -/
def annotatedText (f : Layout) (bits : Nat) : String :=
  match Number.ofBits f bits with
  | .notANumber => "NaN"
  | .infinite negative => signText negative ++ "inf"
  | .finite negative m e =>
    signText negative ++
      if m = 0 then "0.0"
      else
        let d := shortest f m e
        if -4 < d.point ∧ d.point ≤ 16 then positional ".0" d else scientific d

end ClassText.Decimal
