import CodeSurvey.Number.Double
import Mathlib.Data.Nat.Log
import Mathlib.Tactic.Ring

/-!
How floating point numbers round. Main statements: rounding keeps the order against every number
that a floating point number can say, and a whole number can be said, rounded, if and only if its
magnitude is below `2 ^ 1024 - 2 ^ 970`.
-/

namespace CodeSurvey.Double

/-! ### Quotients -/

variable {num den j k m n e : Nat}

/-- A whole number is reached from less than half below. -/
theorem le_roundQuotient_of_close (hden : 0 < den) (h : 2 * (j * den) < 2 * num + den) :
    j ≤ roundQuotient num den := by
  have hnear : 2 * num ≤ 2 * (roundQuotient num den * den) + den := (roundQuotient_near hden).1
  by_contra hlt
  have hstep : (roundQuotient num den + 1) * den ≤ j * den :=
    Nat.mul_le_mul_right den (Nat.lt_of_not_le hlt)
  rw [Nat.add_mul, Nat.one_mul] at hstep
  omega

theorem le_roundQuotient (hden : 0 < den) (h : j * den ≤ num) : j ≤ roundQuotient num den :=
  le_roundQuotient_of_close hden (by omega)

theorem roundQuotient_le (hden : 0 < den) (h : num ≤ j * den) : roundQuotient num den ≤ j := by
  have hnear : 2 * (roundQuotient num den * den) ≤ 2 * num + den := (roundQuotient_near hden).2
  by_contra hlt
  have hstep : (j + 1) * den ≤ roundQuotient num den * den :=
    Nat.mul_le_mul_right den (Nat.lt_of_not_le hlt)
  rw [Nat.add_mul, Nat.one_mul] at hstep
  omega

/-- An even number is reached from half below: its predecessor is odd, so ties go up. -/
theorem roundQuotient_lt_iff (hden : 0 < den) (hj : j % 2 = 0) :
    roundQuotient num den < j ↔ 2 * num + den < 2 * (j * den) := by
  have hnum : num = num / den * den + num % den := (Nat.div_add_mod' num den).symm
  have hrest : num % den < den := Nat.mod_lt num hden
  rcases Nat.lt_trichotomy (num / den + 1) j with h | h | h
  · refine iff_of_true ?_ ?_
    · have hle : roundQuotient num den ≤ num / den + 1 :=
        roundQuotient_le hden (by rw [Nat.add_mul, Nat.one_mul]; omega)
      omega
    · have hmul : (num / den + 2) * den ≤ j * den := Nat.mul_le_mul_right den h
      rw [Nat.add_mul] at hmul
      omega
  · have hodd : num / den % 2 = 1 := by omega
    have hmul : j * den = num / den * den + den := by rw [← h, Nat.add_mul, Nat.one_mul]
    simp only [roundQuotient]
    split_ifs <;> omega
  · have hmul : j * den ≤ num / den * den := Nat.mul_le_mul_right den (Nat.le_of_lt_succ h)
    refine iff_of_false (Nat.not_lt.2 (le_roundQuotient hden ?_)) ?_ <;> omega

/-! ### The numbers that occur -/

/-- So many units are a floating point number, if that is not too large. -/
def Occurs (units : Nat) : Prop := spacing units ∣ units

theorem spacing_eq (units : Nat) : spacing units = 2 ^ (Nat.log 2 units - 52) := by
  rw [spacing, Nat.log2_eq_log_two]
  rfl

theorem spacing_pos (units : Nat) : 0 < spacing units := by
  rw [spacing_eq]
  exact Nat.two_pow_pos _

theorem spacing_dvd_spacing (h : m ≤ n) : spacing m ∣ spacing n := by
  rw [spacing_eq, spacing_eq]
  exact Nat.pow_dvd_pow 2 (Nat.sub_le_sub_right (Nat.log_mono_right h) 52)

/-- Up to 53 bits before trailing zeros make a number that occurs. -/
theorem occurs_mul_two_pow (hm : m < 2 ^ 53) (e : Nat) : Occurs (m * 2 ^ e) := by
  rcases Nat.eq_zero_or_pos m with rfl | hpos
  · rw [Nat.zero_mul]
    exact Nat.dvd_zero _
  · have hlt : m * 2 ^ e < 2 ^ (53 + e) := by
      rw [Nat.pow_add]
      exact Nat.mul_lt_mul_of_pos_right hm (Nat.two_pow_pos e)
    have hlog : Nat.log 2 (m * 2 ^ e) < 53 + e :=
      Nat.log_lt_of_lt_pow (Nat.mul_pos hpos (Nat.two_pow_pos e)).ne' hlt
    rw [Occurs, spacing_eq]
    exact Nat.dvd_mul_left_of_dvd (Nat.pow_dvd_pow 2 (by omega)) m

theorem occurs_two_pow (e : Nat) : Occurs (2 ^ e) := by
  simpa using occurs_mul_two_pow (m := 1) (by decide) e

/-! ### Rounding keeps the order -/

/-- The units of the number nearest to `num / den` units, however large. -/
def nearest (num den : Nat) : Nat :=
  roundQuotient num (den * spacing (num / den)) * spacing (num / den)

/-- From so many units on a number is too large. -/
@[irreducible]
def unitsBound : Nat := Nat.pow 2 2098

theorem ofUnits_eq (negative : Bool) (num den : Nat) :
    ofUnits negative num den =
      if nearest num den < unitsBound then finite negative (nearest num den)
      else infinite negative := by
  unfold unitsBound
  rfl

theorem ofUnits_eq_or (negative : Bool) (num den : Nat) :
    ofUnits negative num den = finite negative (nearest num den) ∨
      ofUnits negative num den = infinite negative := by
  rw [ofUnits_eq]
  exact ite_eq_or_eq ..

theorem nearest_le (hden : 0 < den) (hk : Occurs k) (h : num ≤ k * den) :
    nearest num den ≤ k := by
  have hquotient : num / den ≤ k := by
    calc num / den ≤ k * den / den := Nat.div_le_div_right h
      _ = k := Nat.mul_div_cancel k hden
  -- The spacing at the quotient divides the one at `k`, so it divides `k`.
  obtain ⟨j, rfl⟩ := (spacing_dvd_spacing hquotient).trans hk
  rw [nearest, Nat.mul_comm (spacing _) j]
  refine Nat.mul_le_mul_right _ (roundQuotient_le (Nat.mul_pos hden (spacing_pos _)) ?_)
  calc num ≤ spacing (num / den) * j * den := h
    _ = j * (den * spacing (num / den)) := by ring

theorem le_nearest (hden : 0 < den) (hk : Occurs k) (h : k * den ≤ num) :
    k ≤ nearest num den := by
  have hquotient : k ≤ num / den := (Nat.le_div_iff_mul_le hden).2 h
  have hmultiple : ∀ n, spacing (num / den) ∣ n → n * den ≤ num → n ≤ nearest num den := by
    rintro _ ⟨j, rfl⟩ hj
    rw [nearest, Nat.mul_comm (spacing _) j]
    refine Nat.mul_le_mul_right _ (le_roundQuotient (Nat.mul_pos hden (spacing_pos _)) ?_)
    calc j * (den * spacing (num / den)) = spacing (num / den) * j * den := by ring
      _ ≤ num := hj
  rcases Nat.eq_zero_or_pos k with rfl | hpos
  · exact Nat.zero_le _
  rcases (Nat.log_mono_right (b := 2) hquotient).eq_or_lt with hlog | hlog
  · -- Between the same powers of two the spacing is the same.
    refine hmultiple k ?_ h
    rwa [spacing_eq, ← hlog, ← spacing_eq]
  · -- Else a power of two lies between the two.
    have hq : num / den ≠ 0 := (hpos.trans_le hquotient).ne'
    calc k ≤ 2 ^ Nat.log 2 (num / den) :=
          (Nat.lt_pow_of_log_lt (by decide) hlog).le
      _ ≤ nearest num den := by
        refine hmultiple _ ?_ ((Nat.le_div_iff_mul_le hden).1 (Nat.pow_log_le_self 2 hq))
        rw [spacing_eq]
        exact Nat.pow_dvd_pow 2 (Nat.sub_le _ _)

/-- A number that occurs is its own rounding. -/
theorem nearest_of_occurs (hden : 0 < den) (hk : Occurs k) : nearest (k * den) den = k :=
  Nat.le_antisymm (nearest_le hden hk le_rfl) (le_nearest hden hk le_rfl)

/-- Below a power of two there are no more than 53 bits of steps. -/
theorem two_pow_log_le (n : Nat) : 2 ^ Nat.log 2 n ≤ 2 ^ 52 * spacing n := by
  rw [spacing_eq, ← Nat.pow_add]
  exact Nat.pow_le_pow_right (by decide) (by omega)

/-- A number that occurs is reached from less than half a step below. -/
theorem le_nearest_of_close (hden : 0 < den) (hk : Occurs k) (h : 2 ^ 54 * k < 2 ^ 54 * n + k) :
    k ≤ nearest (n * den) den := by
  rcases Nat.lt_or_ge n k with hlt | hle
  swap
  · exact le_nearest hden hk (Nat.mul_le_mul_right den hle)
  have hhigh : n < 2 ^ (Nat.log 2 n + 1) := Nat.lt_pow_succ_log_self (by decide) n
  -- Above the next power of two, the steps would be too large for a number so close.
  have htop : k ≤ 2 ^ (Nat.log 2 n + 1) := by
    by_contra hgt
    have hlog := two_pow_log_le (2 ^ (Nat.log 2 n + 1))
    rw [Nat.log_pow (by decide)] at hlog
    have hdvd := Nat.dvd_sub ((spacing_dvd_spacing (by omega)).trans hk)
      (occurs_two_pow (Nat.log 2 n + 1))
    have hgap := Nat.le_of_dvd (by omega) hdvd
    omega
  obtain ⟨j, rfl⟩ := (spacing_dvd_spacing hlt.le).trans hk
  have hlog := two_pow_log_le n
  rw [Nat.pow_succ] at htop
  rw [nearest, Nat.mul_div_cancel n hden, Nat.mul_comm (spacing n) j]
  refine Nat.mul_le_mul_right _ (le_roundQuotient_of_close (Nat.mul_pos hden (spacing_pos n)) ?_)
  calc 2 * (j * (den * spacing n)) = den * (2 * (spacing n * j)) := by ring
    _ < den * (2 * n + spacing n) := Nat.mul_lt_mul_of_pos_left (by omega) hden
    _ = 2 * (n * den) + den * spacing n := by ring

/-! ### Bounds -/

/-- The number is so many units or more. -/
inductive AtLeast : Double → Int → Prop
  | finite {negative : Bool} {a : Nat} {units : Int} (h : units ≤ signed negative a) :
      AtLeast (finite negative a) units
  | infinite {units : Int} : AtLeast (infinite false) units

/-- The number is so many units or less. -/
inductive AtMost : Double → Int → Prop
  | finite {negative : Bool} {a : Nat} {units : Int} (h : signed negative a ≤ units) :
      AtMost (finite negative a) units
  | infinite {units : Int} : AtMost (infinite true) units

theorem AtMost.mono {x : Double} {u v : Int} (h : x.AtMost u) (huv : u ≤ v) : x.AtMost v := by
  cases h with
  | finite h => exact .finite (h.trans huv)
  | infinite => exact .infinite

theorem atLeast_ofUnits (h : k ≤ nearest num den) : (ofUnits false num den).AtLeast k := by
  rcases ofUnits_eq_or false num den with heq | heq
  · exact heq ▸ .finite (Int.ofNat_le.2 h)
  · exact heq ▸ .infinite

theorem atMost_ofUnits_true (h : k ≤ nearest num den) : (ofUnits true num den).AtMost (-k) := by
  rcases ofUnits_eq_or true num den with heq | heq
  · exact heq ▸ .finite (Int.neg_le_neg (Int.ofNat_le.2 h))
  · exact heq ▸ .infinite

theorem atMost_ofUnits_false (hsmall : k < unitsBound) (h : nearest num den ≤ k) :
    (ofUnits false num den).AtMost k := by
  rw [ofUnits_eq, if_pos (h.trans_lt hsmall)]
  exact .finite (Int.ofNat_le.2 h)

theorem signed_zero (negative : Bool) : signed negative 0 = 0 := by cases negative <;> rfl

/-- Adding keeps a bound that occurs. -/
theorem AtLeast.add {x : Double} {negative : Bool} {a : Nat} {units : Int} (hx : x.AtLeast units)
    (hk : Occurs k) (h : (k : Int) ≤ units + signed negative a) :
    (x.add (Double.finite negative a)).AtLeast k := by
  cases hx with
  | infinite => exact .infinite
  | @finite s b _ hb =>
    have hsum : (k : Int) ≤ signed s b + signed negative a := by omega
    simp only [Double.add]
    generalize signed s b + signed negative a = sum at hsum
    split
    next hzero =>
      refine .finite ?_
      rw [signed_zero, ← beq_iff_eq.1 hzero]
      exact hsum
    next hzero =>
      rw [decide_eq_false (by omega : ¬ sum < 0)]
      exact atLeast_ofUnits (le_nearest Nat.one_pos hk (by omega))

theorem AtMost.add {x : Double} {negative : Bool} {a : Nat} {units : Int} (hx : x.AtMost units)
    (hk : Occurs k) (hsmall : k < unitsBound) (h : units + signed negative a ≤ k) :
    (x.add (Double.finite negative a)).AtMost k := by
  cases hx with
  | infinite => exact .infinite
  | @finite s b _ hb =>
    have hsum : signed s b + signed negative a ≤ k := by omega
    simp only [Double.add]
    generalize signed s b + signed negative a = sum at hsum
    split
    next hzero =>
      refine .finite ?_
      rw [signed_zero]
      exact Int.natCast_nonneg k
    next hzero =>
      rcases Int.lt_or_le sum 0 with hneg | hpos
      · rw [decide_eq_true hneg]
        exact (atMost_ofUnits_true (Nat.zero_le _)).mono (by omega)
      · rw [decide_eq_false (Int.not_lt.2 hpos)]
        exact atMost_ofUnits_false hsmall (nearest_le Nat.one_pos hk (by omega))

/-- The number is less than a whole number. -/
def isBelow (x : Double) (n : Int) : Bool :=
  match x with
  | finite negative a => signed negative a < n * unitsInOne
  | infinite negative => negative
  | nan => false

theorem AtLeast.not_isBelow {x : Double} {n : Int} (h : x.AtLeast (n * unitsInOne)) :
    x.isBelow n = false := by
  cases h with
  | finite h => exact decide_eq_false (Int.not_lt.2 h)
  | infinite => rfl

theorem AtMost.isBelow {x : Double} {n u : Int} (h : x.AtMost u) (hu : u < n * unitsInOne) :
    x.isBelow n = true := by
  cases h with
  | finite h => exact decide_eq_true (Int.lt_of_le_of_lt h hu)
  | infinite => rfl

/-! ### Whole numbers -/

/-- Half a step below a power of two rounding goes up to it: the last number below it is odd. -/
theorem nearest_lt_two_pow_iff (n e : Nat) :
    nearest n 1 < 2 ^ (e + 54) ↔ n + 2 ^ e < 2 ^ (e + 54) := by
  have hhalf : 2 ^ (e + 54) = 2 * 2 ^ (e + 53) := by rw [Nat.pow_succ']
  have hpow : 2 ^ (e + 53) = 2 ^ 53 * 2 ^ e := by rw [Nat.add_comm, Nat.pow_add]
  have hpos : 0 < 2 ^ e := Nat.two_pow_pos e
  rcases Nat.lt_or_ge n (2 ^ (e + 53)) with hlow | hlow
  · have hnear : nearest n 1 ≤ 2 ^ (e + 53) :=
      nearest_le Nat.one_pos (occurs_two_pow _) (by omega)
    omega
  rcases Nat.lt_or_ge n (2 ^ (e + 54)) with hhigh | hhigh
  · have hstep : spacing (n / 1) = 2 * 2 ^ e := by
      have hlog : Nat.log 2 n = e + 53 := (Nat.log_eq_iff (by omega)).2 ⟨hlow, hhigh⟩
      rw [Nat.div_one, spacing_eq, hlog, ← Nat.pow_succ']
      rfl
    have heven : (2 ^ 53) % 2 = 0 := rfl
    have hwhole : 2 ^ (e + 54) = 2 ^ 53 * (2 * 2 ^ e) := by rw [hhalf, hpow, Nat.mul_left_comm]
    rw [nearest, hstep, Nat.one_mul, hwhole, Nat.mul_lt_mul_right (by omega),
      roundQuotient_lt_iff (by omega) heven]
    omega
  · have hnear : 2 ^ (e + 54) ≤ nearest n 1 :=
      le_nearest Nat.one_pos (occurs_two_pow _) (by omega)
    omega

/-- The same for whole numbers of larger units. -/
theorem nearest_mul_lt_iff (n : Nat) {bound low unit : Nat}
    (hbound : bound + 2 ^ low = 2 ^ (low + 54)) :
    nearest (n * 2 ^ unit) 1 < 2 ^ (low + 54 + unit) ↔ n < bound := by
  have hpow : low + 54 + unit = low + unit + 54 := by omega
  have hshift : n < bound ↔ n + 2 ^ low < 2 ^ (low + 54) := by
    rw [← hbound, Nat.add_lt_add_iff_right]
  rw [hshift, hpow, nearest_lt_two_pow_iff, ← hpow, Nat.pow_add 2 low unit, ← Nat.add_mul,
    Nat.pow_add 2 (low + 54) unit, Nat.mul_lt_mul_right (Nat.two_pow_pos unit)]

/-- The whole numbers of a smaller magnitude are the ones that can be said, rounded. -/
@[irreducible]
def wholeBound : Nat := Nat.pow 2 1024 - Nat.pow 2 970

/-- The bounds as powers of two, whose exponents do not matter. -/
theorem exists_exponents : ∃ low unit, unitsInOne = 2 ^ unit ∧
    unitsBound = 2 ^ (low + 54 + unit) ∧ wholeBound + 2 ^ low = 2 ^ (low + 54) ∧
    64 ≤ low :=
  ⟨970, 1074, by decide +kernel⟩

theorem two_pow_le_wholeBound : 2 ^ 64 ≤ wholeBound := by
  obtain ⟨low, -, -, -, hbound, hlow⟩ := exists_exponents
  have hpow : 2 ^ 64 ≤ 2 ^ low := Nat.pow_le_pow_right (by decide) hlow
  rw [Nat.pow_add] at hbound
  omega

theorem nearest_whole_lt_iff (n : Nat) :
    nearest (n * unitsInOne) 1 < unitsBound ↔ n < wholeBound := by
  obtain ⟨low, unit, hunit, htop, hbound, -⟩ := exists_exponents
  rw [hunit, htop]
  exact nearest_mul_lt_iff n hbound

/-- The whole numbers of up to 53 bits occur. -/
theorem occurs_whole (hm : m < 2 ^ 53) : Occurs (m * unitsInOne) := by
  obtain ⟨-, unit, hunit, -⟩ := exists_exponents
  rw [hunit]
  exact occurs_mul_two_pow hm unit

/-- A whole number of up to 53 bits is its own rounding. -/
theorem nearest_whole (hm : m < 2 ^ 53) : nearest (m * unitsInOne) 1 = m * unitsInOne := by
  have hexact := nearest_of_occurs Nat.one_pos (occurs_whole hm)
  rwa [Nat.mul_one] at hexact

theorem le_nearest_whole (hk : k < 2 ^ 53) (h : k ≤ m) :
    k * unitsInOne ≤ nearest (m * unitsInOne) 1 := by
  refine le_nearest Nat.one_pos (occurs_whole hk) ?_
  rw [Nat.mul_one]
  exact Nat.mul_le_mul_right _ h

theorem unitsInOne_pos : 0 < unitsInOne := by
  obtain ⟨-, unit, hunit, -⟩ := exists_exponents
  rw [hunit]
  exact Nat.two_pow_pos unit

theorem ofInt_of_lt {z : Int} (h : z.natAbs < wholeBound) :
    ofInt z = finite (z < 0) (nearest (z.natAbs * unitsInOne) 1) := by
  rw [ofInt, ofRatio, ofUnits_eq, if_pos ((nearest_whole_lt_iff _).2 h)]

theorem isFinite_ofInt (z : Int) : (ofInt z).isFinite = true ↔ z.natAbs < wholeBound := by
  constructor
  · intro h
    by_contra hlt
    rw [← nearest_whole_lt_iff] at hlt
    rw [ofInt, ofRatio, ofUnits_eq, if_neg hlt] at h
    exact Bool.false_ne_true h
  · intro h
    rw [ofInt_of_lt h]
    rfl

theorem ofInt_of_small {z : Int} (h : z.natAbs < 2 ^ 53) :
    ofInt z = finite (z < 0) (z.natAbs * unitsInOne) := by
  have hbound := two_pow_le_wholeBound
  rw [ofInt_of_lt (by omega), nearest_whole h]

/-- The sign and the magnitude of a whole number make the number. -/
theorem signed_natAbs (z : Int) (u : Nat) : signed (z < 0) (z.natAbs * u) = z * u := by
  rcases Int.lt_or_le z 0 with hneg | hpos
  · rw [decide_eq_true hneg, signed, if_pos rfl, Nat.cast_mul, Int.ofNat_natAbs_of_nonpos hneg.le,
      Int.neg_mul, Int.neg_neg]
  · rw [decide_eq_false (Int.not_lt.2 hpos), signed, if_neg Bool.false_ne_true, Nat.cast_mul,
      Int.natAbs_of_nonneg hpos]

end CodeSurvey.Double
