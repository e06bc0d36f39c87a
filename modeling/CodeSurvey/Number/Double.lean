/-!
Binary floating point numbers of 64 bits. A finite one is a whole number of units, a unit being the
smallest positive number `2 ^ -1074`; the whole numbers of units that occur are those with at most
53 bits before their trailing zeros. Every operation is the exact one, rounded to the nearest
number, a tie to the even one.
-/

namespace CodeSurvey

/-- A floating point number. -/
inductive Double where
  /-- Sign, and magnitude in units. -/
  | finite (negative : Bool) (units : Nat)
  | infinite (negative : Bool)
  | nan
  deriving DecidableEq, Repr, Inhabited

namespace Double

/-- The number of units in one. -/
def unitsInOne : Nat := Nat.pow 2 1074

/-- The distance between neighbours at a magnitude. -/
def spacing (units : Nat) : Nat := Nat.pow 2 (units.log2 - 52)

/-- A quotient rounded to the nearest whole number, a tie to the even one. -/
def roundQuotient (num den : Nat) : Nat :=
  let q := num / den
  let r := num % den
  if 2 * r < den then q else if den < 2 * r then q + 1 else q + q % 2

/-- A quotient and its rounding are at most half a unit apart. -/
theorem roundQuotient_near {num den : Nat} (h : 0 < den) :
    2 * num ≤ 2 * (roundQuotient num den * den) + den ∧
      2 * (roundQuotient num den * den) ≤ 2 * num + den := by
  have hd := Nat.div_add_mod num den
  have hr := Nat.mod_lt num h
  have hc : num / den * den = den * (num / den) := Nat.mul_comm ..
  unfold roundQuotient
  simp only
  split
  · omega
  · split
    · rw [Nat.add_mul]; omega
    · have h2 : num / den % 2 = 0 ∨ num / den % 2 = 1 := by omega
      rw [Nat.add_mul]
      rcases h2 with h2 | h2 <;> rw [h2] <;> omega

/-- The number nearest to `num / den` units. -/
def ofUnits (negative : Bool) (num den : Nat) : Double :=
  let step := spacing (num / den)
  let units := roundQuotient num (den * step) * step
  if units < Nat.pow 2 2098 then finite negative units else infinite negative

/-- The number nearest to `num / den`. -/
def ofRatio (negative : Bool) (num den : Nat) : Double := ofUnits negative (num * unitsInOne) den

/-- The number nearest to a whole number. -/
def ofInt (n : Int) : Double := ofRatio (n < 0) n.natAbs 1

/-- The number of digits of a positive number; none for zero. -/
def digitCount (n : Nat) : Nat := if n == 0 then 0 else (Nat.toDigits 10 n).length

/-- The number nearest to `digits * 10 ^ exponent`. Where the exponent alone decides, the power is
    not computed. -/
def ofDecimal (negative : Bool) (digits : Nat) (exponent : Int) : Double :=
  let top := (digitCount digits : Int) + exponent
  if digits == 0 || top < -400 then finite negative 0
  else if top > 400 then infinite negative
  else if exponent < 0 then ofRatio negative digits (Nat.pow 10 exponent.natAbs)
  else ofRatio negative (digits * Nat.pow 10 exponent.natAbs) 1

/-- The opposite number. -/
def neg : Double → Double
  | finite negative units => finite (!negative) units
  | infinite negative => infinite (!negative)
  | nan => nan

theorem neg_neg (x : Double) : x.neg.neg = x := by cases x <;> simp [neg]

/-- A finite number in units, with its sign. -/
def signed (negative : Bool) (units : Nat) : Int := if negative then -(units : Int) else units

/-- The sum; an exact zero is negative only if both summands are. -/
def add : Double → Double → Double
  | finite s a, finite t b =>
    let sum := signed s a + signed t b
    if sum == 0 then finite (s && t) 0 else ofUnits (sum < 0) sum.natAbs 1
  | nan, _ | _, nan => nan
  | infinite s, infinite t => if s == t then infinite s else nan
  | infinite s, finite .. | finite .., infinite s => infinite s

/-- The product. -/
def mul : Double → Double → Double
  | finite s a, finite t b => ofUnits (s != t) (a * b) unitsInOne
  | nan, _ | _, nan => nan
  | infinite s, infinite t => infinite (s != t)
  | infinite s, finite t b | finite t b, infinite s => if b == 0 then nan else infinite (s != t)

/-- The number is neither infinite nor undefined. -/
def isFinite : Double → Bool
  | finite .. => true
  | _ => false

/-- The same number as a whole number. -/
def equalsInt (x : Double) (n : Int) : Bool :=
  match x with
  | finite s a => signed s a == n * unitsInOne
  | _ => false

/-- The same number; the two zeros are one. -/
def same : Double → Double → Bool
  | finite s a, finite t b => signed s a == signed t b
  | infinite s, infinite t => s == t
  | _, _ => false

end Double

end CodeSurvey
