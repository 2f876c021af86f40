import AlgebraBatch.Text.Search

/-!
# Dates

A `Moment` is a day of the calendar and perhaps a time of that day, which may be told in a time
zone. `fault?` says what is wrong with numbers that name no moment. `text` writes a moment and
`debug` shows it as messages do. Moments that are told in zones are equal if they are the same
instant.
-/

namespace AlgebraBatch

open AlgebraBatch.Text

structure TimeOfDay where
  hour : Nat
  minute : Nat
  second : Nat
  microsecond : Nat
  /-- By how many minutes the clocks of the zone are ahead. -/
  zone : Option Int
  deriving DecidableEq, Repr

structure Moment where
  year : Nat
  month : Nat
  day : Nat
  time : Option TimeOfDay
  deriving DecidableEq, Repr

/-- A length of time, shown in whole days and seconds. -/
def durationDebug (minutes : Int) : String :=
  let days := minutes.fdiv 1440
  let seconds := minutes.fmod 1440 * 60
  let parts := (if days == 0 then [] else ["days=" ++ toString days]) ++
    (if seconds == 0 then [] else ["seconds=" ++ toString seconds])
  "datetime.timedelta(" ++ (if parts.isEmpty then "0" else joinWith ", " parts) ++ ")"

/-- A number with at least so many digits. -/
def padded (width n : Nat) : String :=
  let ds := Nat.toDigits 10 n
  String.ofList (List.replicate (width - ds.length) '0' ++ ds)

namespace TimeOfDay

/-- A zone differs from universal time by less than a day. -/
def zoneFault? (t : TimeOfDay) : Option String :=
  match t.zone with
  | some minutes =>
    if 1440 ≤ minutes.natAbs then
      some ("offset must be a timedelta strictly between -timedelta(hours=24) and " ++
        "timedelta(hours=24), not " ++ durationDebug minutes ++ ".")
    else none
  | none => none

def fault? (t : TimeOfDay) : Option String :=
  if 23 < t.hour then some "hour must be in 0..23"
  else if 59 < t.minute then some "minute must be in 0..59"
  else if 59 < t.second then some "second must be in 0..59"
  else none

def zoneText (minutes : Int) : String :=
  (if minutes < 0 then "-" else "+") ++ padded 2 (minutes.natAbs / 60) ++ ":" ++
    padded 2 (minutes.natAbs % 60)

def text (t : TimeOfDay) : String :=
  padded 2 t.hour ++ ":" ++ padded 2 t.minute ++ ":" ++ padded 2 t.second ++
    (if t.microsecond == 0 then "" else "." ++ padded 6 t.microsecond) ++ t.zone.elim "" zoneText

/-- The numbers of the time; zeros from the seconds on are left out at the end. -/
def numbers (t : TimeOfDay) : List Nat :=
  [t.hour, t.minute] ++
    if t.microsecond != 0 then [t.second, t.microsecond]
    else if t.second != 0 then [t.second]
    else []

def zoneDebug (minutes : Int) : String :=
  "tzinfo=datetime.timezone" ++
    if minutes == 0 then ".utc" else "(" ++ durationDebug minutes ++ ")"

end TimeOfDay

namespace Moment

def isLeap (year : Nat) : Bool := year % 4 == 0 && (year % 100 != 0 || year % 400 == 0)

def daysIn (year month : Nat) : Nat :=
  if month == 2 then if isLeap year then 29 else 28
  else if [4, 6, 9, 11].contains month then 30
  else 31

/-- What is wrong with the numbers of a moment. -/
def fault? (m : Moment) : Option String :=
  match m.time.bind TimeOfDay.zoneFault? with
  | some message => some message
  | none =>
    if m.year == 0 then some "year 0 is out of range"
    else if m.month == 0 || 12 < m.month then some "month must be in 1..12"
    else if m.day == 0 || daysIn m.year m.month < m.day then some "day is out of range for month"
    else m.time.bind TimeOfDay.fault?

/-- The name of a moment's type in messages. -/
def typeName (m : Moment) : String := if m.time.isSome then "datetime" else "date"

def text (m : Moment) : String :=
  padded 4 m.year ++ "-" ++ padded 2 m.month ++ "-" ++ padded 2 m.day ++
    m.time.elim "" fun t => " " ++ t.text

def debug (m : Moment) : String :=
  let numbers := [m.year, m.month, m.day] ++ m.time.elim [] TimeOfDay.numbers
  let zone := (m.time.bind (·.zone)).map TimeOfDay.zoneDebug
  "datetime." ++ m.typeName ++ "(" ++ joinWith ", " (numbers.map toString ++ zone.toList) ++ ")"

/-! ## Instants -/

/-- The number of the day, counted from the first day of the year one. -/
def dayNumber (m : Moment) : Nat :=
  let years := m.year - 1
  let months := ((List.range m.month).drop 1).map (daysIn m.year)
  365 * years + years / 4 - years / 100 + years / 400 + months.foldl (· + ·) 0 + m.day

/-- The microseconds up to the moment, if its zone is known. -/
def instant? (m : Moment) : Option Int := do
  let t ← m.time
  let minutes ← t.zone
  let minute : Int := ((m.dayNumber * 24 + t.hour) * 60 + t.minute : Nat)
  some (((minute - minutes) * 60 + t.second) * 1000000 + t.microsecond)

def equal (a b : Moment) : Bool :=
  a == b || (a.instant?.isSome && a.instant? == b.instant?)

end Moment

end AlgebraBatch
