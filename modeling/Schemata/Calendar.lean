import Schemata.Text.Join
import Schemata.Value

/-!
# Dates and times

Configuration files can hold dates and times. They have no data form of their own: all that counts
is that they exist and how they are shown, so a valid date or time becomes a host object with its
two texts. Dates follow the Gregorian calendar from year 1 on.
-/

namespace Schemata

/-- A date. -/
structure Date where
  year : Nat
  month : Nat
  day : Nat
  deriving DecidableEq, Inhabited

/-- A time of day, with its distance from universal time in minutes where it is known. -/
structure ClockTime where
  hour : Nat
  minute : Nat
  second : Nat := 0
  micro : Nat := 0
  offset : Option Int := none
  deriving DecidableEq, Inhabited

namespace Calendar

/-- Whether a year has a leap day. -/
def isLeap (year : Nat) : Bool := year % 4 == 0 && (year % 100 != 0 || year % 400 == 0)

/-- The number of days in a month. -/
def daysIn (year month : Nat) : Nat :=
  if month == 2 then if isLeap year then 29 else 28
  else if [4, 6, 9, 11].contains month then 30
  else 31

/-- Why a date does not exist. -/
def dateFault? (d : Date) : Option String :=
  if d.year == 0 then some "year 0 is out of range"
  else if d.month == 0 || d.month > 12 then some "month must be in 1..12"
  else if d.day == 0 || d.day > daysIn d.year d.month then some "day is out of range for month"
  else none

/-- Why a time does not exist. -/
def timeFault? (t : ClockTime) : Option String :=
  if t.hour > 23 then some "hour must be in 0..23"
  else if t.minute > 59 then some "minute must be in 0..59"
  else if t.second > 59 then some "second must be in 0..59"
  else none

/-- Why a distance from universal time, in minutes, does not exist: it has to be less than a day. -/
def offsetFault? (minutes : Int) : Option String :=
  if minutes.natAbs < 1440 then none
  else
    let seconds := minutes % 1440 * 60
    some ("offset must be a timedelta strictly between -timedelta(hours=24) and " ++
      "timedelta(hours=24), not datetime.timedelta(days=" ++ toString (minutes / 1440) ++
      (if seconds == 0 then "" else ", seconds=" ++ toString seconds) ++ ").")

/-! ## Texts -/

/-- A number in decimal digits, padded with zeros to a width. -/
def padded (width n : Nat) : String :=
  let digits := toString n
  String.ofList (List.replicate (width - digits.length) '0') ++ digits

/-- A date as text. -/
def dateText (d : Date) : String :=
  padded 4 d.year ++ "-" ++ padded 2 d.month ++ "-" ++ padded 2 d.day

/-- The distance from universal time as text. -/
def offsetText (minutes : Int) : String :=
  let n := minutes.natAbs
  (if minutes < 0 then "-" else "+") ++ padded 2 (n / 60) ++ ":" ++ padded 2 (n % 60)

/-- A time as text. -/
def timeText (t : ClockTime) : String :=
  padded 2 t.hour ++ ":" ++ padded 2 t.minute ++ ":" ++ padded 2 t.second ++
    (if t.micro == 0 then "" else "." ++ padded 6 t.micro) ++ (t.offset.map offsetText).getD ""

/-- The parts of a time as they are shown: seconds only where they are needed. -/
def timeParts (t : ClockTime) : List String :=
  let seconds :=
    if t.micro != 0 then [toString t.second, toString t.micro]
    else if t.second != 0 then [toString t.second]
    else []
  let zone := t.offset.map fun minutes ↦
    if minutes == 0 then "tzinfo=datetime.timezone.utc"
    else
      let days := if minutes < 0 then "days=-1, " else ""
      let seconds := (if minutes < 0 then minutes + 1440 else minutes) * 60
      "tzinfo=datetime.timezone(datetime.timedelta(" ++ days ++ "seconds=" ++
          toString seconds ++ "))"
  [toString t.hour, toString t.minute] ++ seconds ++ zone.toList

/-- The parts of a date as they are shown. -/
def dateParts (d : Date) : List String := [toString d.year, toString d.month, toString d.day]

/-- A host object of a type of this kind. -/
def object (typeName text : String) (parts : List String) : Value :=
  .object {
    text, typeName
    shown := "datetime." ++ typeName ++ "(" ++ Text.joinWith ", " parts ++ ")" }

/-- A date as a value, or why it does not exist. -/
def ofDate (d : Date) : Except String Value :=
  match dateFault? d with
  | some fault => .error fault
  | none => .ok (object "date" (dateText d) (dateParts d))

/-- A time as a value, or why it does not exist. -/
def ofTime (t : ClockTime) : Except String Value :=
  match timeFault? t with
  | some fault => .error fault
  | none => .ok (object "time" (timeText t) (timeParts t))

/-- A date with a time as a value, or why it does not exist. -/
def ofDateTime (d : Date) (t : ClockTime) : Except String Value :=
  match (dateFault? d).or (timeFault? t) with
  | some fault => .error fault
  | none => .ok (object "datetime" (dateText d ++ " " ++ timeText t) (dateParts d ++ timeParts t))

end Calendar

end Schemata
