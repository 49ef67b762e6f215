import TreeRemoval.Decimal.Shortest

/-! # Rounded decimals

Doubles to a count of places or of digits, a half going to the even decimal: as doubles again, and
as text in the fixed, the exponential and the general style.
-/

namespace TreeRemoval.Decimal

/-- The double nearest to the nearest decimal with that many places. The sign stays, also on
zero. -/
def roundPlaces (places : Nat) (x : Float) : Float :=
  match parts x with
  | .finite negative m e =>
    if 0 ≤ e then x
    else
      let n := ((Ratio.ofBinary m e).scaleTen places).roundEven
      let size := Float.ofScientific n true places
      if negative then -size else size
  | _ => x

/-- The double nearest to a whole number, unless it is too large for one. -/
def Parts.ofInt? (n : Int) : Option Parts :=
  let e := n.natAbs.log2 + 1 - 53
  let m := (Ratio.mk n.natAbs (1 <<< e)).roundEven
  if m <<< e < 1 <<< 1024 then some (.finite (n < 0) m e) else none

/-- Digits with a point before the fraction. Without a fraction there is a point if it is kept. -/
def pointed (keepsPoint : Bool) (whole fraction : List Char) : List Char :=
  whole ++ if fraction.isEmpty && !keepsPoint then [] else '.' :: fraction

def fixedText (keepsPoint : Bool) (places : Nat) (r : Ratio) : List Char :=
  let digits := Nat.toDigits 10 (r.scaleTen places).roundEven
  let digits := zeros (places + 1 - digits.length) ++ digits
  let whole := digits.length - places
  pointed keepsPoint (digits.take whole) (digits.drop whole)

/-- The nearest decimal of `more + 1` digits, as its digits and the exponent of the first. -/
def leadingDigits (more : Nat) (r : Ratio) : List Char × Int :=
  if r.numerator = 0 then (zeros (more + 1), 0)
  else
    let lead := leadingExponent r
    -- Rounding up may carry into one digit more, which puts a zero at the end.
    let digits := Nat.toDigits 10 (r.scaleTen (more - lead)).roundEven
    (digits.take (more + 1), lead + digits.length - (more + 1))

def exponentialText (keepsPoint : Bool) (places : Nat) (r : Ratio) : List Char :=
  let (digits, exponent) := leadingDigits places r
  pointed keepsPoint (digits.take 1) (digits.drop 1) ++ exponentText exponent

/-- A number to a count of digits, positionally unless it is very small or has more digits before
the point. Zeros at the end are dropped unless they are kept. -/
def generalText (keepsZeros : Bool) (count : Nat) (r : Ratio) : List Char :=
  let (digits, exponent) := leadingDigits (count - 1) r
  let digits := if keepsZeros then digits else trimmed digits
  if exponent < -4 ∨ count ≤ exponent then
    pointed keepsZeros (digits.take 1) (digits.drop 1) ++ exponentText exponent
  else if exponent < 0 then pointed keepsZeros ['0'] (zeros (-exponent - 1).toNat ++ digits)
  else
    let whole := exponent.toNat + 1
    pointed keepsZeros (digits.take whole ++ zeros (whole - digits.length)) (digits.drop whole)

inductive Style
  | fixed | exponential | general
  deriving DecidableEq, Repr

/-- A number without its sign. In the alternate form a point is always written, and the general
style keeps its zeros. -/
def Style.text (style : Style) (alternate : Bool) (precision : Nat) : Parts → List Char
  | .nan => ['n', 'a', 'n']
  | .infinite _ => ['i', 'n', 'f']
  | .finite _ m e =>
    let r := Ratio.ofBinary m e
    match style with
    | fixed => fixedText alternate precision r
    | exponential => exponentialText alternate precision r
    | general => generalText alternate (max precision 1) r

end TreeRemoval.Decimal
