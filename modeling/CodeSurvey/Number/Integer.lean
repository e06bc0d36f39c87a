import CodeSurvey.Text.Basic
import CodeSurvey.Text.Quoted
import CodeSurvey.Text.WordChar

/-!
Whole numbers as texts. A number may have blanks around it, a sign, digits of any script and single
underscores between digits. The base is given, or else told by a mark in front: `0x`, `0o` or `0b`,
and ten without a mark. A number in base ten has at most 4300 digits.
-/

namespace CodeSurvey.Integer

/-- How the base of a number is known. -/
inductive Base where
  | two
  | eight
  | ten
  | sixteen
  /-- A mark tells it. -/
  | marked
  deriving DecidableEq, Repr

/-- The number that names a base in messages. -/
def Base.number : Base → Nat
  | two => 2
  | eight => 8
  | ten => 10
  | sixteen => 16
  | marked => 0

/-- Why a text is no whole number. -/
inductive Error where
  | notANumber (text : List Char) (base : Base)
  | tooManyDigits (count : Nat)
  deriving DecidableEq, Repr

/-- The most digits of a number in base ten. -/
def maxDigits : Nat := 4300

/-- The words for an error. -/
def Error.message : Error → String
  | notANumber text base =>
    s!"invalid literal for int() with base {base.number}: " ++
      String.ofList ((Text.quoted text).take 200)
  | tooManyDigits count =>
    s!"Exceeds the limit ({maxDigits} digits) for integer string conversion: value has {count} " ++
      "digits; use sys.set_int_max_str_digits() to increase the limit"

/-- A blank around a number; the information separators are none. -/
def isPadding (c : Char) : Bool := Text.isBlank c && !(28 ≤ c.toNat && c.toNat ≤ 31)

/-- Drops the blanks around a number. -/
def trim (s : List Char) : List Char :=
  ((s.dropWhile isPadding).reverse.dropWhile isPadding).reverse

/-- The value of a digit: of a decimal digit of any script, or of a letter. -/
def digit? (c : Char) : Option Nat :=
  let n := c.toNat
  if 97 ≤ n && n ≤ 122 then some (n - 87)
  else if 65 ≤ n && n ≤ 90 then some (n - 55)
  else Text.digitValue? c

/-- The values of digits in a base, with single underscores between them; `afterDigit` says that
    the last character was a digit. -/
def digitsFrom? (base : Nat) (afterDigit : Bool) : List Char → Option (List Nat)
  | [] => if afterDigit then some [] else none
  | '_' :: rest => if afterDigit then digitsFrom? base false rest else none
  | c :: rest => do
    let value ← (digit? c).filter (· < base)
    return value :: (← digitsFrom? base true rest)

/-- The digits of a number without its sign, and their base; an underscore may follow a mark. -/
def unsigned? (base : Base) (s : List Char) : Option (Nat × List Nat) :=
  let marked := fun n rest =>
    let rest := match rest with | '_' :: more => more | other => other
    (digitsFrom? n false rest).map (n, ·)
  let plain := fun n => (digitsFrom? n false s).map (n, ·)
  let mark := match s with | '0' :: c :: _ => some c | _ => none
  let has := fun small large => mark == some small || mark == some large
  match base with
  | .two => if has 'b' 'B' then marked 2 (s.drop 2) else plain 2
  | .eight => if has 'o' 'O' then marked 8 (s.drop 2) else plain 8
  | .sixteen => if has 'x' 'X' then marked 16 (s.drop 2) else plain 16
  | .ten => plain 10
  | .marked =>
    if has 'b' 'B' then marked 2 (s.drop 2)
    else if has 'o' 'O' then marked 8 (s.drop 2)
    else if has 'x' 'X' then marked 16 (s.drop 2)
    else (plain 10).filter fun found => s.head? != some '0' || found.2.all (· == 0)

/-- The value of digits in a base. -/
def valueOf (base : Nat) (digits : List Nat) : Nat := digits.foldl (fun n d => n * base + d) 0

theorem valueOf_append (base : Nat) (l m : List Nat) :
    valueOf base (l ++ m) = valueOf base l * Nat.pow base m.length + valueOf base m := by
  suffices h : ∀ n, m.foldl (fun n d => n * base + d) n =
      n * Nat.pow base m.length + valueOf base m by
    rw [valueOf, List.foldl_append, ← valueOf, h]
  induction m with
  | nil => simp [valueOf]
  | cons d more ih =>
    intro n
    rw [List.foldl_cons, ih]
    have : valueOf base (d :: more) = d * Nat.pow base more.length + valueOf base more := by
      rw [valueOf, List.foldl_cons, ih]; simp
    have hpow : Nat.pow base (more.length + 1) = Nat.pow base more.length * base := rfl
    rw [this, List.length_cons, hpow, Nat.add_mul, Nat.mul_assoc, Nat.mul_comm base, Nat.add_assoc]

/-- Reads a whole number. -/
def read (base : Base) (text : List Char) : Except Error Int :=
  let (negative, rest) := match trim text with
    | '-' :: rest => (true, rest)
    | '+' :: rest => (false, rest)
    | rest => (false, rest)
  match unsigned? base rest with
  | none => .error (.notANumber text base)
  | some (n, digits) =>
    if n == 10 && digits.length > maxDigits then .error (.tooManyDigits digits.length)
    else
      let value : Int := valueOf n digits
      .ok (if negative then -value else value)

end CodeSurvey.Integer
