/-! # Binary floating point, exactly

A finite double is a natural number times a power of two. Everything else in this folder works on
that pair in exact arithmetic.
-/

namespace TreeRemoval.Decimal

/-- A double taken apart: a sign with either no number, or `mantissa * 2 ^ exponent`. -/
inductive Parts where
  | nan
  | infinite (negative : Bool)
  | finite (negative : Bool) (mantissa : Nat) (exponent : Int)
  deriving DecidableEq, Repr

/-- How many values the fraction field has; a number with a leading one bit counts it on top. -/
def fractionSpan : Nat := 0x10000000000000

/-- The fields of the 64-bit format: sign, eleven bits of exponent, 52 bits of fraction. -/
def Parts.ofBits (bits : Nat) : Parts :=
  let negative := bits / 0x8000000000000000 % 2 == 1
  let biased := bits / fractionSpan % 2048
  let fraction := bits % fractionSpan
  if biased = 2047 then
    if fraction = 0 then .infinite negative else .nan
  else if biased = 0 then .finite negative fraction (-1074)
  else .finite negative (fractionSpan + fraction) ((biased : Int) - 1075)

def parts (x : Float) : Parts := .ofBits x.toBits.toNat

def Parts.isNegative : Parts → Bool
  | nan => false
  | infinite negative | finite negative _ _ => negative

/-- A nonnegative rational number `numerator / denominator`. -/
structure Ratio where
  numerator : Nat
  denominator : Nat
  deriving DecidableEq, Repr

namespace Ratio

def ofBinary (m : Nat) (e : Int) : Ratio := ⟨m <<< e.toNat, 1 <<< (-e).toNat⟩

def scaleTen (r : Ratio) (e : Int) : Ratio :=
  ⟨r.numerator * Nat.pow 10 e.toNat, r.denominator * Nat.pow 10 (-e).toNat⟩

def floor (r : Ratio) : Nat := r.numerator / r.denominator

/-- The nearest natural number; of two equally near ones, the even one. -/
def roundEven (r : Ratio) : Nat :=
  let below := r.numerator / r.denominator
  let twice := 2 * (r.numerator % r.denominator)
  if twice < r.denominator then below
  else if r.denominator < twice then below + 1
  else if below % 2 = 0 then below
  else below + 1

def le (r s : Ratio) : Bool := r.numerator * s.denominator ≤ s.numerator * r.denominator

def lt (r s : Ratio) : Bool := r.numerator * s.denominator < s.numerator * r.denominator

end Ratio

def truncate? (x : Float) : Option Int :=
  match parts x with
  | .finite negative m e =>
    let n : Int := (Ratio.ofBinary m e).floor
    some (if negative then -n else n)
  | _ => none

def floor? (x : Float) : Option Int :=
  match parts x with
  | .finite negative m e =>
    let r := Ratio.ofBinary m e
    some (if negative then -(((r.numerator + r.denominator - 1) / r.denominator : Nat) : Int)
      else r.floor)
  | _ => none

def isWhole (x : Float) : Bool :=
  match parts x with
  | .finite _ m e =>
    let r := Ratio.ofBinary m e
    r.numerator % r.denominator == 0
  | _ => false

end TreeRemoval.Decimal
