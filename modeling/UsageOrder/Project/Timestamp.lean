/-!
# Time stamps

A time stamp is a date and a time of day in digits: year, month and day, hour, minute and second,
and six places for the fraction of a second.  Years are counted from March, so that the leap day is
the last day of a year and the lengths of the months follow one linear rule.
-/

namespace UsageOrder
namespace Timestamp

/-- A date of the civil calendar. -/
structure Date where
  year : Nat
  month : Nat
  day : Nat
deriving DecidableEq, Repr

/-- The date that is a number of days after the first of January 1970. -/
def date (days : Nat) : Date :=
  let shifted := days + 719468
  let era := shifted / 146097
  let dayOfEra := shifted % 146097
  let yearOfEra := (dayOfEra - dayOfEra / 1460 + dayOfEra / 36524 - dayOfEra / 146096) / 365
  let dayOfYear := dayOfEra - (365 * yearOfEra + yearOfEra / 4 - yearOfEra / 100)
  let monthFromMarch := (5 * dayOfYear + 2) / 153
  let day := dayOfYear - (153 * monthFromMarch + 2) / 5 + 1
  let month := if monthFromMarch < 10 then monthFromMarch + 3 else monthFromMarch - 9
  { year := yearOfEra + 400 * era + (if month ≤ 2 then 1 else 0), month, day }

/-- A number with at least two digits. -/
def twoDigits (n : Nat) : String := if n < 10 then "0" ++ toString n else toString n

/-- The time stamp of a time in seconds. -/
def ofSeconds (seconds : Nat) : String :=
  let d := date (seconds / 86400)
  let time := seconds % 86400
  toString d.year ++ twoDigits d.month ++ twoDigits d.day ++ "_" ++ twoDigits (time / 3600) ++
    twoDigits (time / 60 % 60) ++ twoDigits (time % 60) ++ "_000000"

end Timestamp
end UsageOrder
