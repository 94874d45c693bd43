/-!
# Days and moments

A day is given by its year, month and number in the month, after the Gregorian calendar.  A moment
is a time of day on a day, to the microsecond.  It may know how far its clock is ahead of universal
time; two moments that both know it are compared as points in time, whatever their clocks show.

## Main definitions

* `Day`, `Day.isValid`, `Day.number` — days, those of the calendar, and their place in it.
* `Moment`, `Moment.isValid`, `Moment.instant` — moments, and their place in time.
* `Moment.same` — whether two moments are the same.
* `Day.text`, `Moment.text` — days and moments as they are written.
-/

namespace StarlarkLint

/-- A number with zeros in front of it, to fill the given width. -/
def padded (width n : Nat) : String :=
  let digits := toString n
  String.ofList (List.replicate (width - digits.length) '0') ++ digits

/-- A day. -/
structure Day where
  /-- The year. -/
  year : Nat
  /-- The month, from one. -/
  month : Nat
  /-- The number in the month, from one. -/
  day : Nat
  deriving DecidableEq, Repr, Inhabited

namespace Day

/-- Whether a year has a day more than others. -/
def isLeap (year : Nat) : Bool := year % 4 = 0 ∧ (year % 100 ≠ 0 ∨ year % 400 = 0)

/-- The number of days of a month. -/
def monthLength (year month : Nat) : Nat :=
  if month = 2 then if isLeap year then 29 else 28
  else if month ∈ [4, 6, 9, 11] then 30
  else 31

/-- Whether the calendar has a day; its years start with one. -/
def isValid (d : Day) : Bool :=
  1 ≤ d.year ∧ 1 ≤ d.month ∧ d.month ≤ 12 ∧ 1 ≤ d.day ∧ d.day ≤ monthLength d.year d.month

/-- The number of leap years up to a year. -/
def leapYears (year : Nat) : Nat := year / 4 - year / 100 + year / 400

/-- The number of a day, one for the first day of the first year. -/
def number (d : Day) : Nat :=
  let months := (List.range (d.month - 1)).map fun m => monthLength d.year (m + 1)
  365 * (d.year - 1) + leapYears (d.year - 1) + months.foldl (· + ·) 0 + d.day

/-- The numbers that spell a day. -/
def parts (d : Day) : List Nat := [d.year, d.month, d.day]

/-- A day as it is written. -/
def text (d : Day) : String :=
  "-".intercalate [padded 4 d.year, padded 2 d.month, padded 2 d.day]

/-- A day as it is shown in messages. -/
def shown (d : Day) : String := "datetime.date(" ++ ", ".intercalate (d.parts.map toString) ++ ")"

end Day

/-- A time of day on a day. -/
structure Moment where
  /-- The day. -/
  day : Day
  /-- The hour. -/
  hour : Nat
  /-- The minute. -/
  minute : Nat
  /-- The second. -/
  second : Nat
  /-- The microsecond. -/
  micro : Nat := 0
  /-- The minutes that the clock is ahead of universal time, if that is known. -/
  ahead : Option Int := none
  deriving DecidableEq, Repr, Inhabited

namespace Moment

/-- The number of minutes in a day. -/
def dayMinutes : Nat := 24 * 60

/-- Whether there is such a moment: clocks are less than a day ahead or behind. -/
def isValid (m : Moment) : Bool :=
  m.day.isValid ∧ m.hour < 24 ∧ m.minute < 60 ∧ m.second < 60 ∧ m.micro < 1000000
    ∧ m.ahead.all fun minutes => minutes.natAbs < dayMinutes

/-- The microseconds that the clock shows, counted from the first day on. -/
def shownTime (m : Moment) : Nat :=
  (((m.day.number * 24 + m.hour) * 60 + m.minute) * 60 + m.second) * 1000000 + m.micro

/-- The microseconds of universal time, for a clock that is ahead by some minutes. -/
def instant (m : Moment) (minutes : Int) : Int := m.shownTime - minutes * 60 * 1000000

/-- Whether two moments are the same: as points in time if both are known as such, by their clocks
if neither is. -/
def same (m n : Moment) : Bool :=
  match m.ahead, n.ahead with
  | none, none => m.shownTime == n.shownTime
  | some a, some b => m.instant a == n.instant b
  | _, _ => false

/-- How far a clock is ahead, as it is shown in messages: in whole days, rounded down, and
seconds. -/
def shownAhead (minutes : Int) : String :=
  if minutes = 0 then "datetime.timezone.utc"
  else
    let days := Int.fdiv minutes dayMinutes
    let seconds := Int.fmod minutes dayMinutes * 60
    let parts :=
      (if days = 0 then [] else ["days=" ++ toString days])
        ++ (if seconds = 0 then [] else ["seconds=" ++ toString seconds])
    "datetime.timezone(datetime.timedelta(" ++ ", ".intercalate parts ++ "))"

/-- How far a clock is ahead, as it is written: in hours and minutes. -/
def textAhead (minutes : Int) : String :=
  (if minutes < 0 then "-" else "+")
    ++ padded 2 (minutes.natAbs / 60) ++ ":" ++ padded 2 (minutes.natAbs % 60)

/-- A moment as it is written: the microsecond is left out if it is zero. -/
def text (m : Moment) : String :=
  m.day.text ++ " " ++ ":".intercalate ([m.hour, m.minute, m.second].map (padded 2))
    ++ (if m.micro = 0 then "" else "." ++ padded 6 m.micro)
    ++ (m.ahead.map textAhead).getD ""

/-- The numbers that spell a moment: the microsecond is left out if it is zero, and then the second
if it is zero too. -/
def parts (m : Moment) : List Nat :=
  m.day.parts ++ [m.hour, m.minute]
    ++ if m.micro ≠ 0 then [m.second, m.micro] else if m.second ≠ 0 then [m.second] else []

/-- A moment as it is shown in messages. -/
def shown (m : Moment) : String :=
  let clock := match m.ahead with
    | none => []
    | some minutes => ["tzinfo=" ++ shownAhead minutes]
  "datetime.datetime(" ++ ", ".intercalate (m.parts.map toString ++ clock) ++ ")"

end Moment

end StarlarkLint
