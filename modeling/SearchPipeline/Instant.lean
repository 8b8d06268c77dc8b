import SearchPipeline.Binary64.Text

/-!
# Instants

An instant is a count of milliseconds since the start of 1970 in universal time.
`Instant.ofText?` reads a date, a time of day and an offset, such as
`2024-02-29T12:30:45.123Z`.
-/

namespace SearchPipeline.Instant

/-- Whether a year of the Gregorian calendar has a twenty-ninth of February. -/
def isLeapYear (year : Nat) : Bool :=
  year % 4 = 0 && (year % 100 ≠ 0 || year % 400 = 0)

/-- The number of days of a month, counted from one. -/
def daysInMonth (year month : Nat) : Nat :=
  match month with
  | 2 => if isLeapYear year then 29 else 28
  | 4 | 6 | 9 | 11 => 30
  | _ => 31

/-- The days of all years before a year, the first being year zero. -/
def daysBeforeYear (year : Nat) : Nat :=
  365 * year + (year + 3) / 4 - (year + 99) / 100 + (year + 399) / 400

/-- The days of a year before a month. -/
def daysBeforeMonth (year : Nat) : (month : Nat) → Nat
  | 0 | 1 => 0
  | month + 2 => daysBeforeMonth year (month + 1) + daysInMonth year (month + 1)

/-- The days from the start of 1970 to a date. -/
def daysSinceEpoch (year month day : Nat) : Int :=
  (daysBeforeYear year + daysBeforeMonth year month + (day - 1) : Nat) - (daysBeforeYear 1970 : Int)

/-- A date and a time of day at an offset from universal time. -/
structure Civil where
  year : Nat
  month : Nat
  day : Nat
  hour : Nat
  minute : Nat
  second : Nat
  nanosecond : Nat
  offsetMinutes : Int
deriving DecidableEq

/-- The seconds since the start of 1970 at which a civil second starts. -/
def Civil.seconds (civil : Civil) : Int :=
  daysSinceEpoch civil.year civil.month civil.day * 86400 + civil.hour * 3600 +
    civil.minute * 60 + civil.second - civil.offsetMinutes * 60

/-- Nanoseconds since the start of 1970. -/
def Civil.nanoseconds (civil : Civil) : Int :=
  civil.seconds * 1000000000 + civil.nanosecond

/--
The day of the month, counted from one, of the day with this number since the
start of 1970.  Years are counted from the first of March, so that the leap day
is their last.
-/
def dayOfMonth (days : Int) : Int :=
  let dayOfCycle := (days + 719468) % 146097
  let year := (dayOfCycle - dayOfCycle / 1460 + dayOfCycle / 36524 - dayOfCycle / 146096) / 365
  let dayOfYear := dayOfCycle - (365 * year + year / 4 - year / 100)
  let month := (5 * dayOfYear + 2) / 153
  dayOfYear - (153 * month + 2) / 5 + 1

/-- Whether a civil second is the last one of a month of universal time. -/
def Civil.endsMonth (civil : Civil) : Bool :=
  civil.seconds % 86400 = 86399 && dayOfMonth (civil.seconds / 86400 + 1) = 1

/--
A second numbered sixty is the last nanosecond of the minute, and is only
accepted where a leap second can be: at the end of a month of universal time.
-/
def Civil.settle? (civil : Civil) : Option Civil :=
  if civil.second = 60 then
    let last := { civil with second := 59, nanosecond := 999999999 }
    if last.endsMonth then some last else none
  else some civil

/-- Whether the parts of a civil time are in their ranges. -/
def Civil.isValid (civil : Civil) : Bool :=
  1 ≤ civil.month && civil.month ≤ 12 && 1 ≤ civil.day &&
    civil.day ≤ daysInMonth civil.year civil.month &&
    civil.hour ≤ 23 && civil.minute ≤ 59 && civil.second ≤ 60

/-- A number written with exactly so many digits, and what follows it. -/
def digits? (count : Nat) (text : List Char) : Option (Nat × List Char) :=
  let written := text.take count
  if written.length = count ∧ written.all Char.isDigit then
    some (Binary64.digitsValue written, text.drop count)
  else none

/-- What follows an expected character. -/
def expect? (char : Char) : List Char → Option (List Char)
  | [] => none
  | head :: rest => if head = char then some rest else none

/-- The nanoseconds of an optional fraction; digits after the ninth do not count. -/
def fraction? : List Char → Option (Nat × List Char)
  | '.' :: rest =>
    let written := rest.takeWhile Char.isDigit
    if written = [] then none
    else
      let kept := (written ++ List.replicate 9 '0').take 9
      some (Binary64.digitsValue kept, rest.dropWhile Char.isDigit)
  | rest => some (0, rest)

/-- The minutes of an offset from universal time, which ends the text. -/
def offset? : List Char → Option Int
  | ['Z'] | ['z'] => some 0
  | sign :: rest => do
    let (hours, rest) ← digits? 2 rest
    let rest ← expect? ':' rest
    let (minutes, rest) ← digits? 2 rest
    let size : Int := hours * 60 + minutes
    if rest = [] ∧ hours ≤ 23 ∧ minutes ≤ 59 then
      if sign = '+' then some size
      else if sign = '-' then some (-size)
      else none
    else none
  | [] => none

/-- Reads the parts of a civil time; between date and time stands any one byte. -/
def civil? (text : List Char) : Option Civil := do
  let (year, rest) ← digits? 4 text
  let rest ← expect? '-' rest
  let (month, rest) ← digits? 2 rest
  let rest ← expect? '-' rest
  let (day, rest) ← digits? 2 rest
  let rest ← match rest with
    | separator :: rest => if separator.toNat < 128 then some rest else none
    | [] => none
  let (hour, rest) ← digits? 2 rest
  let rest ← expect? ':' rest
  let (minute, rest) ← digits? 2 rest
  let rest ← expect? ':' rest
  let (second, rest) ← digits? 2 rest
  let (nanosecond, rest) ← fraction? rest
  let offsetMinutes ← offset? rest
  some ⟨year, month, day, hour, minute, second, nanosecond, offsetMinutes⟩

/-- Reads an instant, cut off to whole milliseconds toward the start of 1970. -/
def ofText? (text : String) : Option Int := do
  let civil ← civil? text.toList
  if civil.isValid then
    let civil ← civil.settle?
    some (civil.nanoseconds.tdiv 1000000)
  else none

end SearchPipeline.Instant
