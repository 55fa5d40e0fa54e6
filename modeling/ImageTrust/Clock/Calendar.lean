/-!
The proleptic Gregorian calendar and points in time. An instant counts nanoseconds from the first
moment of 1970 in UTC; dates and times of day come from text and from certificates.
-/

namespace ImageTrust

/-- Nanoseconds since 1970-01-01T00:00:00Z. -/
abbrev Instant := Int

namespace Clock

def nanosecondsPerSecond : Int := 1000000000

def isLeapYear (year : Nat) : Bool :=
  year % 4 = 0 && (year % 100 != 0 || year % 400 = 0)

/-- The number of days of a month, counted from one; zero when there is no such month. -/
def daysInMonth (year month : Nat) : Nat :=
  match month with
  | 1 | 3 | 5 | 7 | 8 | 10 | 12 => 31
  | 4 | 6 | 9 | 11 => 30
  | 2 => if isLeapYear year then 29 else 28
  | _ => 0

/-- The days of the years before this one, counted from the year zero. -/
def daysBeforeYear (year : Nat) : Nat :=
  365 * year + (year + 3) / 4 - (year + 99) / 100 + (year + 399) / 400

/-- The days of the months before this one. -/
def daysBeforeMonth (year : Nat) : Nat → Nat
  | 0 => 0
  | month + 1 => daysBeforeMonth year month + daysInMonth year month

/-- A date with a time of day, without an offset. -/
structure DateTime where
  year : Nat
  month : Nat
  day : Nat
  hour : Nat
  minute : Nat
  second : Nat
  deriving DecidableEq, Repr

/-- Whether the parts name a day of the calendar and a time of that day. -/
def DateTime.isValid (t : DateTime) : Bool :=
  1 ≤ t.day && t.day ≤ daysInMonth t.year t.month && t.hour ≤ 23 && t.minute ≤ 59 && t.second ≤ 59

/-- Days since 1970-01-01, negative before it. -/
def DateTime.dayNumber (t : DateTime) : Int :=
  (daysBeforeYear t.year + daysBeforeMonth t.year t.month + t.day : Nat) - 1 - 719528

def DateTime.secondOfDay (t : DateTime) : Nat :=
  t.hour * 3600 + t.minute * 60 + t.second

/-- Seconds since 1970-01-01T00:00:00Z when the time is read as UTC. -/
def DateTime.seconds (t : DateTime) : Int :=
  t.dayNumber * 86400 + t.secondOfDay

/-- The first moment of the year 9999 before the common era, astronomically counted. -/
def earliest : Instant :=
  -4371587 * 86400 * nanosecondsPerSecond

/-- The last moment of the year 9999. -/
def latest : Instant :=
  (DateTime.seconds ⟨9999, 12, 31, 23, 59, 59⟩ + 1) * nanosecondsPerSecond - 1

/-- The instant some seconds later, or the end of time on that side. -/
def later (t : Instant) (seconds : Int) : Instant :=
  max earliest (min latest (t + seconds * nanosecondsPerSecond))

end Clock

end ImageTrust
