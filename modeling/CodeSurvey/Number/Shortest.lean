import CodeSurvey.Number.Double

/-!
The shortest decimal text of a floating point number: the fewest digits that lie nearer to it than
to any other number, and of those the ones nearest to it. A number is written with an exponent when
its first digit stands more than sixteen places before the point or more than four behind it.
-/

namespace CodeSurvey.Double

/-- Where a positive quotient has its first digit: the exponent `k` with
    `10 ^ (k - 1) ≤ num / den < 10 ^ k`. -/
def firstPlace (num den : Nat) : Int :=
  if den ≤ num then digitCount (num / den) else 1 - (digitCount ((den + num - 1) / num - 1) : Int)

/-- The reals that round to a magnitude, in quarters of a unit: the ends, and whether these belong
    to them. -/
def roundingRange (units : Nat) : Nat × Nat × Bool :=
  let step := spacing units
  let below := if units == Nat.pow 2 units.log2 && step > 1 then step else 2 * step
  (4 * units - below, 4 * units + 2 * step, units / step % 2 == 0)

/-- A decimal in quarters of a unit, as a quotient. -/
def quarters (digits : Nat) (exponent : Int) : Nat × Nat :=
  if exponent < 0 then (digits * (4 * unitsInOne), Nat.pow 10 exponent.natAbs)
  else (digits * Nat.pow 10 exponent.natAbs * (4 * unitsInOne), 1)

/-- The decimal rounds to the magnitude. -/
def readsBack (units digits : Nat) (exponent : Int) : Bool :=
  let (num, den) := quarters digits exponent
  let (low, high, closed) := roundingRange units
  if closed then low * den ≤ num && num ≤ high * den else low * den < num && num < high * den

/-- Of a decimal and the next one on its grid, that which rounds to the magnitude, and the nearer
    one if both do. -/
def choose? (units digits : Nat) (exponent : Int) : Option Nat :=
  match readsBack units digits exponent, readsBack units (digits + 1) exponent with
  | false, false => none
  | true, false => some digits
  | false, true => some (digits + 1)
  | true, true =>
    let (num, den) := quarters (2 * digits + 1) exponent
    let middle := 8 * units * den
    some <| if middle < num then digits else if num < middle then digits + 1
      else digits + digits % 2

/-- Tries grids with more and more digits, `count` and up; `place` is where the first digit
    stands. Seventeen digits always do. -/
def shortestFrom (units : Nat) (place : Int) : Nat → Nat → Nat × Int
  | 0, _ => (0, 0)
  | fuel + 1, count =>
    let exponent := place - count
    let digits :=
      if exponent < 0 then units * 10 ^ exponent.natAbs / unitsInOne
      else units / (unitsInOne * 10 ^ exponent.natAbs)
    match choose? units digits exponent with
    | some digits => (digits, exponent)
    | none => shortestFrom units place fuel (count + 1)

/-- The shortest decimal of a positive magnitude: digits and exponent. -/
def shortest (units : Nat) : Nat × Int := shortestFrom units (firstPlace units unitsInOne) 17 1

/-- The digits of a decimal with a point behind the first `place` of them. -/
def positional (digits : List Char) (place : Int) : List Char :=
  if place ≤ 0 then '0' :: '.' :: List.replicate place.natAbs '0' ++ digits
  else
    let whole := digits.take place.toNat
    let zeros := List.replicate (place.toNat - digits.length) '0'
    let fraction := digits.drop place.toNat
    whole ++ zeros ++ '.' :: (if fraction.isEmpty then ['0'] else fraction)

/-- The digits of a decimal with a point behind the first one, and an exponent with a sign and at
    least two digits. -/
def scientific (digits : List Char) (place : Int) : List Char :=
  let exponent := place - 1
  let places := Nat.toDigits 10 exponent.natAbs
  digits.take 1 ++ (if digits.length > 1 then '.' :: digits.drop 1 else []) ++
    ['e', if exponent < 0 then '-' else '+'] ++
      (if places.length < 2 then '0' :: places else places)

/-- The text of a number without its sign. -/
def magnitudeText (units : Nat) : List Char :=
  if units == 0 then ['0', '.', '0']
  else
    let (digits, exponent) := shortest units
    let all := Nat.toDigits 10 digits
    let place := all.length + exponent
    let digits := (all.reverse.dropWhile (· == '0')).reverse
    if place ≤ -4 || place > 16 then scientific digits place else positional digits place

/-- The text of a number. -/
def text : Double → String
  | finite negative units => String.ofList ((if negative then ['-'] else []) ++ magnitudeText units)
  | infinite negative => if negative then "-inf" else "inf"
  | nan => "nan"

end CodeSurvey.Double
