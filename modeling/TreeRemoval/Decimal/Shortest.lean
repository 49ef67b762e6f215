import TreeRemoval.Decimal.Binary

/-! # Shortest decimal text

A double is written with the fewest digits that read back as the same double; of several such
decimals the nearest is taken. Numbers from 0.0001 up to below 10 ^ 16 are written positionally.
-/

namespace TreeRemoval.Decimal

/-- The reals that round to `m * 2 ^ e`, ends included when `m` is even. -/
structure Interval where
  low : Ratio
  high : Ratio
  closed : Bool

/-- The interval of a positive double: half of the gap to each neighbour. Below a power of two the
gap is half as wide, except at the least exponent. -/
def Interval.ofBinary (m : Nat) (e : Int) : Interval where
  low := .ofBinary (if m = fractionSpan ∧ e ≠ -1074 then 4 * m - 1 else 4 * m - 2) (e - 2)
  high := .ofBinary (4 * m + 2) (e - 2)
  closed := m % 2 == 0

def Interval.contains (i : Interval) (r : Ratio) : Bool :=
  if i.closed then i.low.le r && r.le i.high else i.low.lt r && r.lt i.high

/-- A positive decimal `coefficient * 10 ^ exponent`. -/
structure Scientific where
  coefficient : Nat
  exponent : Int
  deriving DecidableEq, Repr

def Scientific.ratio (d : Scientific) : Ratio := (Ratio.mk d.coefficient 1).scaleTen d.exponent

def digitCount (n : Nat) : Nat := if n = 0 then 0 else (Nat.toDigits 10 n).length

def leadingExponent (r : Ratio) : Int :=
  if r.denominator ≤ r.numerator then digitCount r.floor - 1
  else -(digitCount ((r.denominator + r.numerator - 1) / r.numerator - 1) : Int)

/-- The neighbours of `r` among the multiples of `10 ^ e` that lie in the interval; the nearer one
if both do, and the even one if they are equally near. -/
def onGrid? (i : Interval) (r : Ratio) (e : Int) : Option Scientific :=
  let scaled := r.scaleTen (-e)
  let below : Scientific := ⟨scaled.floor, e⟩
  let above : Scientific := ⟨scaled.floor + 1, e⟩
  match i.contains below.ratio, i.contains above.ratio with
  | true, true => some ⟨scaled.roundEven, e⟩
  | true, false => some below
  | false, true => some above
  | false, false => none

/-- The first hit on the grids of `n`, `n + 1`, ... digits, or else the finest grid's rounding. -/
def firstOnGrid (i : Interval) (r : Ratio) (lead : Int) : Nat → Nat → Scientific
  | 0, n => ⟨(r.scaleTen (n - 1 - lead)).roundEven, lead + 1 - n⟩
  | more + 1, n => (onGrid? i r (lead + 1 - n)).getD (firstOnGrid i r lead more (n + 1))

/-- The shortest decimal of a positive double; seventeen digits always suffice. -/
def shortest (m : Nat) (e : Int) : Scientific :=
  let r := Ratio.ofBinary m e
  firstOnGrid (.ofBinary m e) r (leadingExponent r) 17 1

def trimmed (digits : List Char) : List Char := (digits.reverse.dropWhile (· = '0')).reverse

def zeros (n : Nat) : List Char := List.replicate n '0'

/-- Digits around a point that stands after `whole` of them, one digit at least on each side. -/
def positional (digits : List Char) (whole : Int) : List Char :=
  if whole ≤ 0 then '0' :: '.' :: zeros (-whole).toNat ++ digits
  else
    let n := whole.toNat
    let fraction := digits.drop n
    digits.take n ++ zeros (n - digits.length) ++
      '.' :: if fraction.isEmpty then ['0'] else fraction

def exponentText (exponent : Int) : List Char :=
  let size := Nat.toDigits 10 exponent.natAbs
  'e' :: (if exponent < 0 then '-' else '+') :: zeros (2 - size.length) ++ size

/-- One digit, a point before further digits, and the exponent. -/
def exponential (digits : List Char) (exponent : Int) : List Char :=
  digits.take 1 ++ (if digits.length ≤ 1 then [] else '.' :: digits.drop 1) ++
    exponentText exponent

def positiveText (m : Nat) (e : Int) : List Char :=
  let d := shortest m e
  let exponent := d.exponent + digitCount d.coefficient - 1
  let digits := trimmed (Nat.toDigits 10 d.coefficient)
  if -4 ≤ exponent ∧ exponent < 16 then positional digits (exponent + 1)
  else exponential digits exponent

structure Words where
  nan : String
  infinity : String

def text (words : Words) (x : Float) : String :=
  match parts x with
  | .nan => words.nan
  | .infinite negative => if negative then "-" ++ words.infinity else words.infinity
  | .finite negative m e =>
    let digits := if m = 0 then ['0', '.', '0'] else positiveText m e
    String.ofList (if negative then '-' :: digits else digits)

end TreeRemoval.Decimal
