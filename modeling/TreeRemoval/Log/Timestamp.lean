import TreeRemoval.Decimal.Binary

/-! # Timestamps

Seconds since the start of 1970 as a date and time of day of the Gregorian calendar in UTC, with
milliseconds.
-/

namespace TreeRemoval.Log

structure Date where
  year : Int
  month : Nat
  day : Nat
  deriving DecidableEq, Repr

/-- The date of a count of days since 1970-01-01. Years are counted from March within eras of 400
years, which all have the same length. -/
def Date.ofDays (days : Int) : Date :=
  let shifted := days + 719468
  let era := shifted.fdiv 146097
  let dayOfEra := (shifted.fmod 146097).toNat
  let yearOfEra := (dayOfEra - dayOfEra / 1460 + dayOfEra / 36524 - dayOfEra / 146096) / 365
  let dayOfYear := dayOfEra - (365 * yearOfEra + yearOfEra / 4 - yearOfEra / 100)
  let fromMarch := (5 * dayOfYear + 2) / 153
  let month := if fromMarch < 10 then fromMarch + 3 else fromMarch - 9
  let year : Int := yearOfEra + era * 400
  ⟨if month ≤ 2 then year + 1 else year, month, dayOfYear - (153 * fromMarch + 2) / 5 + 1⟩

def padded (width : Nat) (n : Int) : String :=
  let digits := Nat.toDigits 10 n.natAbs
  let sign := if n < 0 then ['-'] else []
  String.ofList (sign ++ List.replicate (width - sign.length - digits.length) '0' ++ digits)

/-- A point in time, given as seconds since 1970, to the millisecond. The milliseconds are those of
the seconds' fraction, cut off. -/
def timestamp (seconds : Float) : String :=
  let whole := (Decimal.floor? seconds).getD 0
  let date := Date.ofDays (whole.fdiv 86400)
  let time := whole.fmod 86400
  let fraction := seconds - Float.ofInt ((Decimal.truncate? seconds).getD 0)
  let millis := (Decimal.truncate? (fraction * 1000)).getD 0
  toString date.year ++ "-" ++ padded 2 date.month ++ "-" ++ padded 2 date.day ++ " " ++
    padded 2 (time / 3600) ++ ":" ++ padded 2 (time / 60 % 60) ++ ":" ++ padded 2 (time % 60) ++
    "," ++ padded 3 millis

end TreeRemoval.Log
