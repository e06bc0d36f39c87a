import CodeSurvey.Data
import CodeSurvey.Number.Integer

/-!
Dates and moments of a configuration. Their numbers stand at fixed places, whatever stands between
them; the number of an offset too. A fraction or an offset that cannot be read is left out.
-/

namespace CodeSurvey.Toml

/-- The number at a place in a text. -/
def numberAt? (s : List Char) (start stop : Nat) : Option Int :=
  (Integer.read .ten ((s.take stop).drop start)).toOption

/-- The minutes of an offset. -/
def offset? (s : List Char) : Option Int :=
  if s == ['Z'] then some 0
  else do
    let hours ← numberAt? s 1 3
    let minutes ← numberAt? s 4 6
    let total := hours * 60 + minutes
    return if s.head? == some '-' then -total else total

/-- The microseconds of the digits of a fraction of a second. -/
def micros? (s : List Char) : Option Int := do
  let n ← numberAt? s 0 s.length
  if s.length ≤ 6 then return n * Nat.pow 10 (6 - s.length)
  let share := (Double.ofInt n).mul (Double.ofDecimal false 1 (6 - s.length))
  match share with
  | .finite negative units =>
    let whole : Int := units / Double.unitsInOne
    return if negative then -whole else whole
  | _ => none

/-- What follows the seconds: the microseconds and the offset. -/
def trailer? : List Char → Option (Int × Option Int)
  | '.' :: rest =>
    let isZulu := rest.getLast?.any fun c => c == 'Z' || c == 'z'
    let digits := if isZulu then rest.dropLast
      else if rest.contains '+' then rest.takeWhile (· != '+')
      else rest.takeWhile (· != '-')
    let zone := if isZulu then ['Z'] else rest.drop digits.length
    if zone.isEmpty then (micros? digits).map (·, none)
    else do
      let offset ← offset? zone
      return (← micros? digits, some offset)
  | zone => (offset? zone).map fun minutes => (0, some minutes)

/-- A number that is not negative. -/
def natural? (n : Int) : Option Nat := if n < 0 then none else some n.toNat

/-- The date or the moment in a text, none if there is no such one. -/
def calendarValue? (s : List Char) : Option Data := do
  let (micros, offset) := (if 19 < s.length then trailer? (s.drop 19) else none).getD (0, none)
  if !s.tail.contains '-' then none
  let field := fun start stop => (numberAt? s start stop).bind natural?
  let date ← (Calendar.date (← field 0 4) (← field 5 7) (← field 8 10)).toOption
  if s.length == 10 then return .date date
  let micros ← (natural? micros).filter (· < 1000000)
  let time ← (Calendar.time (← field 11 13) (← field 14 16) (← field 17 19) micros).toOption
  return .moment ⟨date, time, offset⟩

/-- A digit of a time of day. -/
def clockDigit? (c : Char) : Option Nat := if c.isDigit then some (c.toNat - 48) else none

/-- The numbers of the time of day that a text begins with: hour, minute, second and, if three
    digits follow a point, the number in up to six digits there. -/
def clock? : List Char → Option (Nat × Nat × Nat × Nat)
  | a :: b :: ':' :: c :: d :: ':' :: e :: f :: rest => do
    let pair := fun x y => do return (← clockDigit? x) * 10 + (← clockDigit? y)
    let fraction := match rest with
      | '.' :: more => ((more.take 6).takeWhile Char.isDigit).filterMap clockDigit?
      | _ => []
    let micros := if fraction.length < 3 then 0 else Integer.valueOf 10 fraction
    return (← pair a b, ← pair c d, ← pair e f, micros)
  | _ => none

end CodeSurvey.Toml
