import UsageOrder.Text.Basic

/-!
# Dates and times in YAML

A date is written with hyphens, and a time of day may follow it, with a fraction of a second and a
zone.  A date and a time that the calendar has are shown in one form: the date, the time, six places
of a fraction that is not zero, and the offset of the zone.
-/

namespace UsageOrder
namespace Yaml

/-- A time of day; the offset of its zone is in minutes. -/
structure DayTime where
  hour : Nat
  minute : Nat
  second : Nat
  fraction : Text
  offset : Option Int

/-- A date, with or without a time of day, as it is written. -/
structure Moment where
  year : Nat
  month : Nat
  day : Nat
  /-- Whether the month and the day are written with two digits each. -/
  padded : Bool
  time : Option DayTime

namespace Moment

/-- The number that some digits stand for. -/
def number (digits : Text) : Nat := digits.foldl (fun n c => 10 * n + (c.toNat - 48)) 0

/-- At least `least` and at most `most` digits at the start of a text, and the rest. -/
def digits? (least most : Nat) (text : Text) : Option (Text × Text) :=
  let ds := (text.take most).takeWhile Char.isDigit
  if ds.length < least then none else some (ds, text.drop ds.length)

/-- The rest of a text behind a character that it has to start with. -/
def behind? (mark : Char) (text : Text) : Option Text :=
  match text with
  | c :: rest => if c = mark then some rest else none
  | [] => none

/-- The minutes of an offset, if there are any, and the end of the text. -/
def offsetMinutes? (text : Text) : Option Nat :=
  match text with
  | [] => some 0
  | text => do
    let (minute, rest) ← digits? 2 2 (← behind? ':' text)
    if rest.isEmpty then some (number minute) else none

/-- The offset of the zone that a text consists of. -/
def zone? (text : Text) : Option (Option Int) :=
  match text with
  | [] => some none
  | ['Z'] => some (some 0)
  | sign :: rest =>
    if sign = '+' || sign = '-' then do
      let (hour, rest) ← digits? 1 2 rest
      let minutes : Int := 60 * number hour + (← offsetMinutes? rest)
      some (some (if sign = '-' then -minutes else minutes))
    else none

/-- The fraction of a second at the start of a text, and the rest. -/
def spanFraction (text : Text) : Text × Text :=
  match text with
  | '.' :: rest => (rest.takeWhile Char.isDigit, rest.dropWhile Char.isDigit)
  | rest => ([], rest)

/-- Whether a character is a space or a tab. -/
def isPad (c : Char) : Bool := c = ' ' || c = '\t'

/-- The time of day that a text consists of. -/
def dayTime? (text : Text) : Option DayTime := do
  let (hour, rest) ← digits? 1 2 text
  let (minute, rest) ← digits? 2 2 (← behind? ':' rest)
  let (second, rest) ← digits? 2 2 (← behind? ':' rest)
  let (fraction, rest) := spanFraction rest
  let zone := rest.dropWhile isPad
  if zone.isEmpty && !rest.isEmpty then none
  else some ⟨number hour, number minute, number second, fraction, ← zone? zone⟩

/-- The time of day behind a date, if there is one: behind a letter, or behind white space. -/
def timePart? (text : Text) : Option (Option DayTime) :=
  match text with
  | [] => some none
  | c :: rest =>
    if c = 'T' || c = 't' then (dayTime? rest).map some
    else if isPad c then (dayTime? (rest.dropWhile isPad)).map some
    else none

/-- The date and time that a text consists of. -/
def parse? (text : Text) : Option Moment := do
  let (year, rest) ← digits? 4 4 text
  let (month, rest) ← digits? 1 2 (← behind? '-' rest)
  let (day, rest) ← digits? 1 2 (← behind? '-' rest)
  let padded := month.length = 2 && day.length = 2
  some ⟨number year, number month, number day, padded, ← timePart? rest⟩

/-- The number of days of a month. -/
def monthLength (year month : Nat) : Nat :=
  if month = 2 then
    if year % 4 = 0 ∧ (year % 100 ≠ 0 ∨ year % 400 = 0) then 29 else 28
  else if month = 4 ∨ month = 6 ∨ month = 9 ∨ month = 11 then 30
  else 31

/-- Whether the calendar has the date. -/
def isDate (moment : Moment) : Bool :=
  decide (1 ≤ moment.year ∧ 1 ≤ moment.month ∧ moment.month ≤ 12 ∧ 1 ≤ moment.day ∧
    moment.day ≤ monthLength moment.year moment.month)

/-- Whether the clock has the time; an offset is less than a day. -/
def isTime (time : DayTime) : Bool :=
  decide (time.hour < 24 ∧ time.minute < 60 ∧ time.second < 60) &&
    time.offset.all fun minutes => decide (minutes.natAbs < 1440)

/-- A number with at least a number of digits. -/
def zeroFilled (width n : Nat) : Text :=
  let ds := Nat.toDigits 10 n
  List.replicate (width - ds.length) '0' ++ ds

/-- The fraction of a second in six places, nothing if it is zero. -/
def shownFraction (fraction : Text) : Text :=
  let places := fraction.take 6
  if places.all (· = '0') then [] else '.' :: places ++ List.replicate (6 - places.length) '0'

/-- The offset of a zone. -/
def shownOffset (minutes : Int) : Text :=
  (if minutes < 0 then '-' else '+') :: zeroFilled 2 (minutes.natAbs / 60) ++
    ':' :: zeroFilled 2 (minutes.natAbs % 60)

/-- A time of day. -/
def shownTime (time : DayTime) : Text :=
  zeroFilled 2 time.hour ++ ':' :: zeroFilled 2 time.minute ++ ':' :: zeroFilled 2 time.second ++
    shownFraction time.fraction ++ (time.offset.map shownOffset).getD []

/-- A date and its time; none if there is no such date or no such time. -/
def shown? (moment : Moment) : Option Text :=
  if moment.isDate && moment.time.all isTime then
    let date :=
      zeroFilled 4 moment.year ++ '-' :: zeroFilled 2 moment.month ++ '-' :: zeroFilled 2 moment.day
    some (date ++ (moment.time.map fun time => ' ' :: shownTime time).getD [])
  else none

end Moment
end Yaml
end UsageOrder
