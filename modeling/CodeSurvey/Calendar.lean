/-!
Dates, times of day and moments: which of them exist, and how they are written. A moment may know
its distance from universal time; two such moments are the same if they are the same instant.
-/

namespace CodeSurvey.Calendar

/-- A date. -/
structure Date where
  year : Nat
  month : Nat
  day : Nat
  deriving DecidableEq, Repr, Inhabited

/-- A time of day. -/
structure Time where
  hour : Nat
  minute : Nat
  second : Nat
  micros : Nat
  deriving DecidableEq, Repr, Inhabited

/-- A date with a time of day. -/
structure Moment where
  date : Date
  time : Time
  /-- The minutes by which the clock is ahead of universal time, if that is known. -/
  offset : Option Int
  deriving DecidableEq, Repr, Inhabited

/-- Why there is no such date or time. -/
inductive Error where
  | year (y : Nat)
  | month
  | day
  | hour
  | minute
  | second
  /-- The offset, in minutes, of a whole day or more. -/
  | offset (minutes : Int)
  deriving DecidableEq, Repr

/-- A span of minutes as days and seconds, the latter not negative. -/
def spanText (minutes : Int) : String :=
  let days := Int.fdiv minutes 1440
  let seconds := Int.fmod minutes 1440 * 60
  let parts := (if days == 0 then [] else [s!"days={days}"]) ++
    (if seconds == 0 then [] else [s!"seconds={seconds}"])
  "datetime.timedelta(" ++ String.intercalate ", " parts ++ ")"

/-- The words for an error. -/
def Error.message : Error → String
  | year y => s!"year {y} is out of range"
  | month => "month must be in 1..12"
  | day => "day is out of range for month"
  | hour => "hour must be in 0..23"
  | minute => "minute must be in 0..59"
  | second => "second must be in 0..59"
  | offset minutes =>
    "offset must be a timedelta strictly between -timedelta(hours=24) and " ++
      s!"timedelta(hours=24), not {spanText minutes}."

/-- A year with a leap day. -/
def isLeap (year : Nat) : Bool := year % 4 == 0 && (year % 100 != 0 || year % 400 == 0)

/-- The number of days of a month. -/
def daysIn (year month : Nat) : Nat :=
  if month == 2 then if isLeap year then 29 else 28
  else if month == 4 || month == 6 || month == 9 || month == 11 then 30 else 31

/-- The date with these numbers; the years are 1 to 9999. -/
def date (year month day : Nat) : Except Error Date :=
  if year < 1 || 9999 < year then .error (.year year)
  else if month < 1 || 12 < month then .error .month
  else if day < 1 || daysIn year month < day then .error .day
  else .ok ⟨year, month, day⟩

/-- The time of day with these numbers. -/
def time (hour minute second micros : Nat) : Except Error Time :=
  if 23 < hour then .error .hour
  else if 59 < minute then .error .minute
  else if 59 < second then .error .second
  else .ok ⟨hour, minute, second, micros⟩

/-- A number in at least so many digits. -/
def padded (places n : Nat) : String :=
  let digits := Nat.toDigits 10 n
  String.ofList (List.replicate (places - digits.length) '0' ++ digits)

/-- The text of a date. -/
def Date.text (d : Date) : String := s!"{padded 4 d.year}-{padded 2 d.month}-{padded 2 d.day}"

/-- The text of a time of day; a fraction of a second is left out if it is zero. -/
def Time.text (t : Time) : String :=
  s!"{padded 2 t.hour}:{padded 2 t.minute}:{padded 2 t.second}" ++
    if t.micros == 0 then "" else s!".{padded 6 t.micros}"

/-- The text of an offset. -/
def offsetText (minutes : Int) : String :=
  let n := minutes.natAbs
  (if minutes < 0 then "-" else "+") ++ s!"{padded 2 (n / 60)}:{padded 2 (n % 60)}"

/-- The text of a moment. -/
def Moment.text (m : Moment) : String :=
  s!"{m.date.text}T{m.time.text}" ++ (m.offset.map offsetText).getD ""

/-- The number of days from the first day of the year 1 on. -/
def Date.ordinal (d : Date) : Nat :=
  let y := d.year - 1
  y * 365 + y / 4 - y / 100 + y / 400 +
    ((List.range (d.month - 1)).map fun m => daysIn d.year (m + 1)).foldr (· + ·) 0 + d.day

/-- Microseconds of the clock since the beginning of the year 1. -/
def Moment.micros (m : Moment) : Int :=
  (((m.date.ordinal * 24 + m.time.hour) * 60 + m.time.minute) * 60 + m.time.second) * 1000000 +
    m.time.micros

/-- The same moment; one that knows its offset differs from one that does not. -/
def Moment.same (a b : Moment) : Bool :=
  match a.offset, b.offset with
  | some x, some y => a.micros - x * 60000000 == b.micros - y * 60000000
  | none, none => a.micros == b.micros
  | _, _ => false

end CodeSurvey.Calendar
