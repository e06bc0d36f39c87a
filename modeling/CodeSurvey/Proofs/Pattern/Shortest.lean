import CodeSurvey.Pattern.Basic
import CodeSurvey.Proofs.Pattern.First

/-!
What a shortest run reads when it has a least length or is remembered by a group, and where the
first match stands. Main statements: such a run ends at the first place, at least so many characters
on, where the pattern behind it can be read; the first match begins at the first place where the
pattern can be read.
-/

namespace CodeSurvey.Pattern

variable {p q : Pattern} {r r₁ r₂ r' : Reading} {set : Char → Bool} {c : Char}
  {cs ds us vs rest : List Char} {least n : Nat}

/-! ### Shortest runs -/

/-- A shortest run goes on until its continuation answers. -/
theorem runShortest_eq {α : Type} {next : Reading → Option α} (passes : Passes r cs r')
    (mem : ∀ c ∈ cs, set c = true) (enough : least ≤ cs.length) (answers : (next r').isSome)
    (early : ∀ us ls s, us ++ ls = cs → ls ≠ [] → least ≤ us.length → Passes r us s →
      next s = none) :
    runShortest set next least r.rest r = next r' := by
  induction passes generalizing least with
  | @stay r =>
    obtain rfl : least = 0 := Nat.le_zero.1 enough
    obtain ⟨a, ha⟩ := Option.isSome_iff_exists.1 answers
    cases r.rest with
    | nil => rfl
    | cons d more => simp only [runShortest, beq_self_eq_true, if_true, ha]
  | @past r r' c rest cs ahead more ih =>
    obtain ⟨hc, hcs⟩ := List.forall_mem_cons.1 mem
    have hlater : runShortest set next (least - 1) rest (r.past c rest) = next r' := by
      refine ih hcs (by rw [List.length_cons] at enough; omega) answers ?_
      rintro us ls s rfl hne hle hpasses
      exact early (c :: us) ls s rfl hne (by rw [List.length_cons]; omega) (.past ahead hpasses)
    have hhere : (if least == 0 then next r else none) = none := by
      cases least with
      | zero => exact early [] (c :: cs) r rfl (List.cons_ne_nil c cs) (Nat.le_refl _) .stay
      | succ least => rfl
    rw [ahead, runShortest, hhere]
    exact (if_pos hc).trans hlater

/-- A remembered shortest run ends at the first place where what follows can be read. -/
theorem ReadsFirst.groupShortest (passes : Passes r cs r₁) (mem : ∀ c ∈ cs, set c = true)
    (enough : least ≤ cs.length)
    (early : ∀ us ls, us ++ ls = cs → ls ≠ [] → least ≤ us.length →
      ∀ s : Reading, s.rest = ls ++ r₁.rest → Fails q s)
    (second : ReadsFirst q (r.remember n r₁) ds r₂) :
    ReadsFirst (.cat (.group n (many false least set)) q) r (cs ++ ds) r₂ where
  reads := .cat (.group (.many passes mem enough)) second.reads
  run_eq next h := by
    have hsecond := second.run_eq next h
    show runShortest set (fun s => run q (r.remember n s) next) least r.rest r = next r₂
    rw [runShortest_eq passes mem enough (hsecond ▸ h) ?_, hsecond]
    rintro us ls s rfl hne hle hpasses
    have hrest : s.rest = ls ++ r₁.rest := by
      have heq := passes.rest_eq
      rw [hpasses.rest_eq, List.append_assoc] at heq
      exact List.append_cancel_left heq
    exact (early us ls rfl hne hle (r.remember n s) hrest).run_eq next

/-! ### Places where a pattern fails -/

/-- The pattern fails at every place of these characters when `rest` stands behind them. -/
def Misses (p : Pattern) (us rest : List Char) : Prop :=
  ∀ ls, ls ≠ [] → ls <:+ us → ∀ s : Reading, s.rest = ls ++ rest → Fails p s

theorem misses_nil : Misses p [] rest := fun _ hne hls => absurd (List.suffix_nil.1 hls) hne

theorem Misses.cons (here : ∀ s : Reading, s.rest = c :: (us ++ rest) → Fails p s)
    (more : Misses p us rest) : Misses p (c :: us) rest := by
  intro ls hne hls s hs
  rcases List.suffix_cons_iff.1 hls with rfl | hls
  · exact here s hs
  · exact more ls hne hls s hs

theorem Misses.append (first : Misses p us (vs ++ rest)) (second : Misses p vs rest) :
    Misses p (us ++ vs) rest := by
  induction us with
  | nil => exact second
  | cons c us ih =>
    refine .cons (fun s hs => ?_) (ih fun ls hne hls => ?_)
    · exact first _ (List.cons_ne_nil c us) (List.suffix_refl _) s
        (hs.trans (congrArg (c :: ·) (List.append_assoc us vs rest)))
    · exact first ls hne (hls.trans (List.suffix_cons c us))

/-- Whatever the pattern reads begins with `c`. -/
def StartsWith (c : Char) (p : Pattern) : Prop :=
  ∀ r cs r', Reads p r cs r' → r.rest.head? = some c

theorem StartsWith.text (c : Char) (chars : List Char) : StartsWith c (text (c :: chars)) := by
  intro r cs r' hreads
  rw [(passes_of_reads_text hreads).rest_eq]
  rfl

theorem StartsWith.cat (h : StartsWith c p) : StartsWith c (cat p q) := by
  intro r cs r' hreads
  obtain ⟨_, _, _, hfirst, -⟩ := exists_of_reads_cat hreads
  exact h _ _ _ hfirst

/-- Where the first character of a pattern does not stand it fails. -/
theorem StartsWith.misses (h : StartsWith c p) (hc : c ∉ us) : Misses p us rest := by
  intro ls hne hls s hs cs s' hreads
  obtain ⟨d, ls, rfl⟩ := List.exists_cons_of_ne_nil hne
  obtain rfl : d = c := by simpa [hs] using h _ _ _ hreads
  exact hc (hls.subset (List.mem_cons_self ..))

/-- A shortest run that is remembered ends behind the characters where what follows fails. -/
theorem ReadsFirst.groupMissing (passes : Passes r cs r₁) (mem : ∀ c ∈ cs, set c = true)
    (misses : Misses q cs r₁.rest) (second : ReadsFirst q (r.remember n r₁) ds r₂) :
    ReadsFirst (.cat (.group n (many false 0 set)) q) r (cs ++ ds) r₂ :=
  .groupShortest passes mem (Nat.zero_le _)
    (fun us ls hcs hne _ => misses ls hne ⟨us, hcs⟩) second

/-- A scan goes over the places where the pattern fails. -/
theorem Misses.scans {change : Match → List Char} {ms : List Match} {out : List Char}
    (h : Misses p us r'.rest) (passes : Passes r us r') (more : Scans p change r' ms out) :
    Scans p change r ms (us ++ out) :=
  .misses passes (fun ls s hne hls hpasses => h ls hne hls s hpasses.rest_eq) more

/-! ### What a scan lists -/

/-- Going through the text ahead of a place group 1 reads these, match by match. -/
def Finds (p : Pattern) (r : Reading) (found : List (List Char)) : Prop :=
  ∃ ms out, Scans p Match.text r ms out ∧ ms.map (·.group 1) = found

variable {found : List (List Char)} {s t text : List Char} {captures : List Capture}

theorem Finds.findAll_eq (h : Finds p (.atStart text) found) :
    (p.findAll text).map (·.group 1) = found := by
  obtain ⟨ms, out, hscans, rfl⟩ := h
  rw [hscans.findAll_eq]

theorem Finds.done (ahead : r.rest = []) : Finds p r [] := ⟨[], [], .done ahead, rfl⟩

theorem Finds.past (ahead : r.rest = c :: rest) (fails : Fails p r)
    (more : Finds p (r.past c rest) found) : Finds p r found := by
  obtain ⟨ms, out, hscans, hfound⟩ := more
  exact ⟨ms, _, .miss ahead fails hscans, hfound⟩

theorem Finds.skip (passes : Passes r us r') (misses : Misses p us r'.rest)
    (more : Finds p r' found) : Finds p r found := by
  obtain ⟨ms, out, hscans, hfound⟩ := more
  exact ⟨ms, _, misses.scans passes hscans, hfound⟩

theorem Finds.hit (first : ReadsFirst p r cs r') (nonempty : cs ≠ []) (passes : Passes r cs r₁)
    (remembered : r'.captures = ⟨1, s ++ t, s.length⟩ :: captures) (more : Finds p r₁ found) :
    Finds p r (s :: found) := by
  obtain ⟨ms, out, hscans, rfl⟩ := more
  refine ⟨_, _, .hit first nonempty passes hscans, ?_⟩
  rw [List.map_cons, Match.group_eq (m := matchOf r cs r') remembered]

/-- Nothing is found before the first character with which the pattern begins. -/
theorem Finds.skipOthers {u : List Char} (h : StartsWith c p) (hc : c ∉ u) (hr : r.rest = u ++ rest)
    (more : ∀ s : Reading, s.rest = rest → Finds p s found) : Finds p r found := by
  obtain ⟨s, hpasses, hs⟩ := exists_passes hr
  exact .skip hpasses (h.misses hc) (more s hs)

theorem Finds.nil (h : StartsWith c p) (hc : c ∉ r.rest) : Finds p r [] :=
  .skipOthers h hc (List.append_nil _).symm fun _ => .done

/-! ### The first match -/

theorem firstFrom_eq (passes : Passes r us r₁) (misses : Misses p us r₁.rest)
    (first : ReadsFirst p r₁ cs r') (hne : r₁.rest ≠ []) (hr : r.captures = []) :
    firstFrom p r.before r.offset r.rest = some (matchOf r₁ cs r') := by
  induction passes with
  | @stay r =>
    obtain ⟨c, rest, hrest⟩ := List.exists_cons_of_ne_nil hne
    have hplace : r = ⟨r.before, c :: rest, r.offset, []⟩ := by rw [← hrest, ← hr]
    have hmatch : matchAt? p ⟨r.before, c :: rest, r.offset, []⟩ = some (matchOf r cs r') :=
      hplace ▸ first.matchAt?_eq
    rw [hrest, firstFrom, hmatch]
  | @past r r₁ c rest us ahead passes ih =>
    have hplace : r = ⟨r.before, c :: rest, r.offset, []⟩ := by rw [← ahead, ← hr]
    have hrest : r.rest = c :: us ++ r₁.rest := (Passes.past ahead passes).rest_eq
    have hmatch : matchAt? p ⟨r.before, c :: rest, r.offset, []⟩ = none :=
      hplace ▸ matchAt?_eq_none (misses _ (List.cons_ne_nil c us) (List.suffix_refl _) r hrest)
    rw [ahead, firstFrom, hmatch]
    exact ih (fun ls hls hsuffix => misses ls hls (hsuffix.trans (List.suffix_cons c us)))
      first hne hr

/-- The first match begins behind the characters where the pattern fails. -/
theorem first?_eq (passes : Passes (.atStart text) us r₁)
    (misses : Misses p us r₁.rest) (first : ReadsFirst p r₁ cs r') (hne : r₁.rest ≠ []) :
    p.first? text = some (matchOf r₁ cs r') := firstFrom_eq passes misses first hne rfl

/-- The first match is the first of all that a scan lists. -/
theorem first?_eq_head? (p : Pattern) (text : List Char) :
    p.first? text = (p.findAll text).head? := by
  suffices h : ∀ before offset,
      firstFrom p before offset text = (matchesFrom p before offset 0 text).head? from h ..
  induction text with
  | nil => exact fun _ _ => rfl
  | cons c rest ih =>
    intro before offset
    rw [firstFrom, matchesFrom]
    cases matchAt? p ⟨before, c :: rest, offset, []⟩ with
    | none => exact ih ..
    | some m => rfl

/-! ### Letters in any case -/

theorem ReadsFirst.seqCons {more : List Pattern} (first : ReadsFirst p r cs r₁)
    (second : ReadsFirst (seq more) r₁ ds r') : ReadsFirst (seq (p :: more)) r (cs ++ ds) r' := by
  cases more with
  | nil =>
    obtain ⟨hreads, -⟩ := second
    cases hreads
    rw [List.append_nil]
    exact first
  | cons q more => exact first.cat second

/-- Small letters that count as themselves are read where they stand. -/
theorem ReadsFirst.anyCase {s : String} (passes : Passes r s.toList r')
    (same : ∀ c ∈ s.toList, countsAs c c = true) : ReadsFirst (anyCase s) r s.toList r' := by
  rw [Pattern.anyCase]
  generalize s.toList = cs at passes same
  induction cs generalizing r with
  | nil =>
    cases passes
    exact .nothing
  | cons c cs ih =>
    obtain ⟨hc, hcs⟩ := List.forall_mem_cons.1 same
    obtain ⟨r₁, hhere, hmore⟩ := (show Passes r ([c] ++ cs) r' from passes).split
    exact .seqCons (.one hhere hc) (ih hmore hcs)

/-- Letters in any case begin with one that counts as the first of them. -/
theorem countsAs_of_reads_anyCase {s : String} {d : Char} {more ahead : List Char}
    (h : Reads (anyCase s) r cs r') (hs : s.toList = c :: more) (hr : r.rest = d :: ahead) :
    countsAs c d = true := by
  have hone : ∃ r₁ ds, Reads (one (countsAs c)) r ds r₁ := by
    rw [anyCase, hs] at h
    cases more with
    | nil => exact ⟨_, _, h⟩
    | cons e more =>
      obtain ⟨r₁, ds, -, hfirst, -⟩ := exists_of_reads_cat h
      exact ⟨r₁, ds, hfirst⟩
  obtain ⟨r₁, ds, hreads⟩ := hone
  obtain ⟨e, he, hpasses⟩ := exists_of_reads_one hreads
  obtain ⟨rfl, -⟩ := List.cons.inj (hr.symm.trans hpasses.rest_eq)
  exact he

end CodeSurvey.Pattern
