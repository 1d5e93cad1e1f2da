import MacroRelay.Text.Basic

/-!
# Instants

An instant is a count of nanoseconds since 1970, written as a calendar date and time of day
in UTC.
-/

namespace MacroRelay.Trace

structure Instant where
  seconds : Int
  nanos : Nat
deriving DecidableEq, Inhabited

namespace Instant

/-- Any number of nanoseconds, carried into the seconds. -/
def ofUnix (seconds nanos : Int) : Instant :=
  ⟨seconds + nanos.fdiv 1000000000, (nanos.fmod 1000000000).toNat⟩

structure Date where
  year : Int
  month : Nat
  day : Nat
deriving DecidableEq

/-- The date `days` days after 1970-01-01. Years are counted from March, so that a leap day
is the last day of its year. -/
def dateOfDays (days : Int) : Date :=
  let fromMarch := days + 719468
  let era := fromMarch.fdiv 146097
  let dayOfEra := (fromMarch.fmod 146097).toNat
  let yearOfEra := (dayOfEra - dayOfEra / 1460 + dayOfEra / 36524 - dayOfEra / 146096) / 365
  let dayOfYear := dayOfEra - (365 * yearOfEra + yearOfEra / 4 - yearOfEra / 100)
  let shifted := (5 * dayOfYear + 2) / 153
  let day := dayOfYear - (153 * shifted + 2) / 5 + 1
  let month := if shifted < 10 then shifted + 3 else shifted - 9
  ⟨yearOfEra + era * 400 + if month ≤ 2 then 1 else 0, month, day⟩

def date (t : Instant) : Date :=
  dateOfDays (t.seconds.fdiv 86400)

/-- The fraction of the second without trailing zeros, empty for a whole second. -/
def fraction (t : Instant) : Text :=
  let digits := ((Text.decimalPadded 9 t.nanos).reverse.dropWhile (· == 0x30)).reverse
  if digits = [] then [] else "." ++ digits

/-- Date and time in UTC, for the years of four digits. -/
def text? (t : Instant) : Option Text :=
  let d := t.date
  if d.year < 0 ∨ 9999 < d.year then none
  else
    let second := (t.seconds.fmod 86400).toNat
    some (Text.decimalPadded 4 d.year.toNat ++ "-" ++ Text.decimalPadded 2 d.month ++ "-" ++
      Text.decimalPadded 2 d.day ++ "T" ++ Text.decimalPadded 2 (second / 3600) ++ ":" ++
      Text.decimalPadded 2 (second / 60 % 60) ++ ":" ++ Text.decimalPadded 2 (second % 60) ++
      t.fraction ++ "Z")

end Instant

end MacroRelay.Trace
