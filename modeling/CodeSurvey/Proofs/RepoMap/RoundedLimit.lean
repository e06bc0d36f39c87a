import CodeSurvey.Proofs.RepoMap.Greedy

/-!
The limit of a repository map as floating point numbers compute it: the characters of the budget
times the number nearest to 1.2. Main statement: for texts of fewer than 2 ^ 50 characters it decides
what the exact limit decides, both whether a section fits and how many signatures the next one may
list.
-/

namespace CodeSurvey.RepoMap

variable {b : Int} {size used n : Nat}

/-- The limit, computed with rounding. -/
def roundedLimit (budget : Int) : Double :=
  (Double.ofInt (4 * budget)).mul (Double.ofDecimal false 12 (-1))

/-! ### The number nearest to 1.2 -/

/-- The distance between neighbours just above one, in units. -/
@[irreducible]
def grain : Nat := Nat.pow 2 1022

/-- What there is to know about the distance; the nearest number to 1.2 is a fifth of it too small. -/
theorem grain_facts : ∃ e, 2 ^ 49 * grain = 2 ^ e ∧ Double.unitsInOne = 2 ^ 52 * grain ∧
    2 ^ 102 * grain ≤ Double.unitsBound ∧
    Double.ofDecimal false 12 (-1) = .finite false (5404319552844595 * grain) :=
  ⟨1071, by decide +kernel⟩

theorem unitsInOne_eq : Double.unitsInOne = 2 ^ 52 * grain := by
  obtain ⟨-, -, hunits, -⟩ := grain_facts
  exact hunits

theorem grain_pos : 0 < grain := by
  have hunits := Double.unitsInOne_pos
  rw [unitsInOne_eq] at hunits
  exact Nat.pos_of_mul_pos_left hunits

theorem unitsInOne_le_factor : Double.unitsInOne ≤ 5404319552844595 * grain := by
  rw [unitsInOne_eq]
  exact Nat.mul_le_mul_right _ (by decide)

theorem occurs_eighths {m : Nat} (hm : m < 2 ^ 53) : Double.Occurs (m * (2 ^ 49 * grain)) := by
  obtain ⟨e, he, -⟩ := grain_facts
  rw [he]
  exact Double.occurs_mul_two_pow hm e

theorem eighths_lt_unitsBound {m : Nat} (hm : m < 2 ^ 53) :
    m * (2 ^ 49 * grain) < Double.unitsBound := by
  obtain ⟨-, -, -, hbound, -⟩ := grain_facts
  calc m * (2 ^ 49 * grain) < 2 ^ 53 * (2 ^ 49 * grain) :=
        Nat.mul_lt_mul_of_pos_right hm (Nat.mul_pos (by decide) grain_pos)
    _ = 2 ^ 102 * grain := by ring
    _ ≤ Double.unitsBound := hbound

theorem roundedLimit_eq (hb : InRange b) : roundedLimit b = Double.ofUnits (b < 0)
    (Double.nearest ((4 * b).natAbs * Double.unitsInOne) 1 * (5404319552844595 * grain))
    Double.unitsInOne := by
  have hsign : decide (4 * b < 0) = decide (b < 0) := by
    rw [decide_eq_decide]
    omega
  obtain ⟨-, -, -, -, hfactor⟩ := grain_facts
  rw [roundedLimit, Double.ofInt_of_lt hb, hfactor, Double.mul, hsign, Bool.bne_false]

/-- Few characters are said exactly, so only their product with the factor is rounded. -/
theorem roundedLimit_of_few (hn : 4 * n < 2 ^ 53) : roundedLimit n =
    Double.ofUnits false (4 * n * 5404319552844595 * grain * Double.unitsInOne)
      Double.unitsInOne := by
  have hrange : InRange n := by
    have hbound := Double.two_pow_le_wholeBound
    rw [InRange]
    omega
  have hchars : (4 * (n : Int)).natAbs = 4 * n := by omega
  have hproduct : 4 * n * Double.unitsInOne * (5404319552844595 * grain) =
      4 * n * 5404319552844595 * grain * Double.unitsInOne := by ring
  rw [roundedLimit_eq hrange, hchars, decide_eq_false (by omega : ¬ (n : Int) < 0),
    Double.nearest_whole hn, hproduct]

/-! ### The two limits -/

theorem atLeast_roundedLimit (hb : InRange b) (hsize : size < 2 ^ 50) (h : fits b size = true) :
    (roundedLimit b).AtLeast (size * Double.unitsInOne : Nat) := by
  have hfits : 5 * (size : Int) ≤ 24 * b := of_decide_eq_true h
  obtain ⟨n, rfl⟩ := Int.eq_ofNat_of_zero_le (by omega : 0 ≤ b)
  rcases Nat.lt_or_ge (4 * n) (2 ^ 52) with hfew | hmany
  · rw [roundedLimit_of_few (by omega)]
    refine Double.atLeast_ofUnits ?_
    rcases Nat.eq_zero_or_pos size with rfl | hpos
    · rw [Nat.zero_mul]
      exact Nat.zero_le _
    -- The limit is less than half a step below the size, if it is below it.
    have hclose : 2 ^ 54 * (size * 2 ^ 52) < 2 ^ 54 * (4 * n * 5404319552844595) + size * 2 ^ 52 := by
      omega
    refine Double.le_nearest_of_close Double.unitsInOne_pos (Double.occurs_whole (by omega)) ?_
    rw [unitsInOne_eq]
    calc 2 ^ 54 * (size * (2 ^ 52 * grain)) = 2 ^ 54 * (size * 2 ^ 52) * grain := by ring
      _ < (2 ^ 54 * (4 * n * 5404319552844595) + size * 2 ^ 52) * grain :=
        Nat.mul_lt_mul_of_pos_right hclose grain_pos
      _ = 2 ^ 54 * (4 * n * 5404319552844595 * grain) + size * (2 ^ 52 * grain) := by ring
  · -- The size is less than the characters, even if they are rounded down.
    rw [roundedLimit_eq hb, decide_eq_false (by omega : ¬ (n : Int) < 0)]
    refine Double.atLeast_ofUnits ?_
    refine Double.le_nearest Double.unitsInOne_pos (Double.occurs_whole (by omega)) ?_
    exact Nat.mul_le_mul (Double.le_nearest_whole (by omega) (by omega)) unitsInOne_le_factor

theorem atMost_roundedLimit (hb : InRange b) (hsize : size < 2 ^ 50) (h : fits b size = false) :
    (roundedLimit b).AtMost ((8 * size - 1) * (2 ^ 49 * grain)) := by
  have hfits : ¬ 5 * (size : Int) ≤ 24 * b := of_decide_eq_false h
  rcases Int.lt_or_le b 0 with hneg | hnonneg
  · -- A negative limit is at most one below zero.
    have hone : 1 * Double.unitsInOne ≤ Double.nearest
        (Double.nearest ((4 * b).natAbs * Double.unitsInOne) 1 * (5404319552844595 * grain))
          Double.unitsInOne := by
      refine Double.le_nearest Double.unitsInOne_pos (Double.occurs_whole (by decide)) ?_
      exact Nat.mul_le_mul (Double.le_nearest_whole (by decide) (by omega)) unitsInOne_le_factor
    rw [roundedLimit_eq hb, decide_eq_true hneg]
    refine (Double.atMost_ofUnits_true hone).mono ?_
    have hscale : -8 * (2 ^ 49 * (grain : Int)) ≤ (8 * size - 1) * (2 ^ 49 * grain) :=
      Int.mul_le_mul_of_nonneg_right (by omega) (by positivity)
    rw [unitsInOne_eq]
    push_cast
    linarith
  · obtain ⟨n, rfl⟩ := Int.eq_ofNat_of_zero_le hnonneg
    obtain ⟨m, rfl⟩ : ∃ m, size = m + 1 := Nat.exists_eq_succ_of_ne_zero (by omega)
    have hbelow : 4 * n * 5404319552844595 ≤ (8 * m + 7) * 2 ^ 49 := by omega
    rw [roundedLimit_of_few (by omega)]
    have hk : 4 * n * 5404319552844595 * grain * Double.unitsInOne ≤
        (8 * m + 7) * (2 ^ 49 * grain) * Double.unitsInOne := by
      refine Nat.mul_le_mul_right _ ?_
      rw [← Nat.mul_assoc]
      exact Nat.mul_le_mul_right _ hbelow
    refine (Double.atMost_ofUnits_false (eighths_lt_unitsBound (by omega))
      (Double.nearest_le Double.unitsInOne_pos (occurs_eighths (by omega)) hk)).mono (le_of_eq ?_)
    push_cast
    ring

/-! ### The same decisions -/

theorem eighths_lt (z : Int) : (8 * z - 1) * (2 ^ 49 * grain) < z * Double.unitsInOne := by
  have hscale : z * Double.unitsInOne = 8 * z * (2 ^ 49 * grain) := by
    rw [unitsInOne_eq]
    push_cast
    ring
  have hpos : (0 : Int) < 2 ^ 49 * grain := by
    have hgrain := grain_pos
    positivity
  rw [hscale]
  exact Int.mul_lt_mul_of_pos_right (by omega) hpos

/-- A section fits if its size is not above the rounded limit. -/
theorem fits_eq_not_isBelow (hb : InRange b) (hsize : size < 2 ^ 50) :
    fits b size = !(roundedLimit b).isBelow size := by
  cases h : fits b size with
  | true =>
    have hlimit := atLeast_roundedLimit hb hsize h
    rw [Nat.cast_mul] at hlimit
    rw [hlimit.not_isBelow]
    rfl
  | false =>
    rw [(atMost_roundedLimit hb hsize h).isBelow (eighths_lt size)]
    rfl

/-- A section may list 10 signatures if the rounded difference to the rounded limit is below 2000,
    else 30. -/
theorem signatureLimit_eq_isBelow (hb : InRange b) (hused : used + 2000 < 2 ^ 50) :
    signatureLimit b used =
      if ((roundedLimit b).add (Double.ofInt (-used))).isBelow 2000 then 10 else 30 := by
  have hsub := Double.ofInt_of_small (by omega : (-(used : Int)).natAbs < 2 ^ 53)
  have hsigned := Double.signed_natAbs (-used) Double.unitsInOne
  rw [hsub]
  cases h : fits b (used + 2000) with
  | true =>
    have hroom : ¬ 24 * b - 5 * (used : Int) < 10000 := by
      have hfits := of_decide_eq_true h
      omega
    have hleft : ((2000 * Double.unitsInOne : Nat) : Int) ≤
        ((used + 2000) * Double.unitsInOne : Nat) +
          Double.signed (-(used : Int) < 0) ((-(used : Int)).natAbs * Double.unitsInOne) := by
      rw [hsigned]
      push_cast
      linarith
    have hlimit := (atLeast_roundedLimit hb hused h).add (Double.occurs_whole (by decide)) hleft
    rw [Nat.cast_mul, Nat.cast_ofNat] at hlimit
    rw [signatureLimit, if_neg hroom, hlimit.not_isBelow]
    rfl
  | false =>
    have hroom : 24 * b - 5 * (used : Int) < 10000 := by
      have hfits := of_decide_eq_false h
      omega
    have hleft : (8 * ((used + 2000 : Nat) : Int) - 1) * (2 ^ 49 * grain) +
        Double.signed (-(used : Int) < 0) ((-(used : Int)).natAbs * Double.unitsInOne) ≤
          (15999 * (2 ^ 49 * grain) : Nat) := by
      rw [hsigned, unitsInOne_eq]
      push_cast
      linarith
    have hlimit := (atMost_roundedLimit hb hused h).add (occurs_eighths (by decide))
      (eighths_lt_unitsBound (by decide)) hleft
    have hbelow : ((15999 * (2 ^ 49 * grain) : Nat) : Int) < 2000 * Double.unitsInOne := by
      have heighths := eighths_lt 2000
      push_cast
      linarith
    rw [signatureLimit, if_pos hroom, hlimit.isBelow hbelow]
    rfl

/-! ### The run with the rounded limit -/

/-- The sections that are taken where the limit is computed with rounding. -/
def sectionsRounded (budget : Int) (used : Nat) (mustTake : Bool) :
    List FileDigest → List (FileDigest × List Char)
  | [] => []
  | d :: more =>
    let left := (roundedLimit budget).add (Double.ofInt (-used))
    let text := fileSection d (if left.isBelow 2000 then 10 else 30)
    let size := used + text.length + 1
    if mustTake || !(roundedLimit budget).isBelow size then
      (d, text) :: sectionsRounded budget size false more
    else []

/-- If all sections together are shorter than 2 ^ 50 characters, rounding changes nothing. -/
theorem sectionsRounded_eq (hb : InRange b) (before rest : List FileDigest) (mustTake : Bool)
    (hsize : sizeOf b (before ++ rest) + 2000 < 2 ^ 50) :
    sectionsRounded b (sizeOf b before) mustTake rest =
      sectionsFrom b (sizeOf b before) mustTake rest := by
  induction rest generalizing before mustTake with
  | nil => rfl
  | cons d more ih =>
    have hbefore := sizeOf_le_sizeOf_append b before (d :: more)
    have hnext := sizeOf_le_sizeOf_append b (before ++ [d]) more
    rw [List.append_assoc, List.singleton_append] at hnext
    have hmore := ih (before ++ [d]) false (by rwa [List.append_assoc])
    simp only [sectionsRounded, sectionsFrom]
    rw [← signatureLimit_eq_isBelow hb (by omega), sizeOf_add_section,
      ← fits_eq_not_isBelow hb (by omega), hmore]

end CodeSurvey.RepoMap
