/-! # Reading decimal numbers

Signed decimal texts with an optional fraction and exponent, and the words for infinity and for no
number, as doubles.
-/

namespace TreeRemoval.Decimal

def spanDigits (cs : List Char) : List Char × List Char :=
  (cs.takeWhile Char.isDigit, cs.dropWhile Char.isDigit)

def ofDigits (digits : List Char) : Nat :=
  digits.foldl (fun n c => 10 * n + (c.toNat - 48)) 0

/-- The double nearest to `n * 10 ^ e`. Outside the exponents that a double can reach the answer
is known without the power. -/
def nearest (n : Nat) (digitCount : Nat) (e : Int) : Float :=
  if n = 0 then 0
  else if 400 < e + digitCount then 1 / 0
  else if e + digitCount < -400 then 0
  else if 0 ≤ e then Float.ofScientific (n * Nat.pow 10 e.toNat) false 0
  else Float.ofScientific n true (-e).toNat

/-- A decimal without sign: digits with an optional point, then an optional exponent. -/
def unsigned? (cs : List Char) : Option Float := do
  let (whole, rest) := spanDigits cs
  let (fraction, rest) := match rest with
    | '.' :: rest => spanDigits rest
    | _ => ([], rest)
  let digits := whole ++ fraction
  guard !digits.isEmpty
  let exponent : Int ← match rest with
    | [] => some 0
    | mark :: rest => do
      guard (mark = 'e' || mark = 'E')
      let (negative, rest) := match rest with
        | '-' :: rest => (true, rest)
        | '+' :: rest => (false, rest)
        | _ => (false, rest)
      let (power, rest) := spanDigits rest
      guard (rest.isEmpty && !power.isEmpty)
      some (if negative then -(ofDigits power : Int) else ofDigits power)
  return nearest (ofDigits digits) digits.length (exponent - fraction.length)

def magnitude? (cs : List Char) : Option Float :=
  match String.ofList (cs.map Char.toLower) with
  | "inf" | "infinity" => some (1 / 0)
  | "nan" => some (0 / 0)
  | _ => unsigned? cs

def read? (s : String) : Option Float :=
  match s.toList with
  | '-' :: cs => (magnitude? cs).map (-·)
  | '+' :: cs => magnitude? cs
  | cs => magnitude? cs

end TreeRemoval.Decimal
