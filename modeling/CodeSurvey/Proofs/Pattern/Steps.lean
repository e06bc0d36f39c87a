import CodeSurvey.Proofs.Pattern.First

/-!
Patterns that are decided at every place: there they fail, or what they read first is known and not
empty. Main statement: repeated as often as it goes, such a pattern stops at a place where it
fails, and what holds of each step holds of the last one.
-/

namespace CodeSurvey.Pattern

variable {p q : Pattern} {P : List Char → List Char → Prop} {r : Reading} {cs rest : List Char}

/-- At every place the pattern fails, or its first reading is not empty and has a property with the
    text behind it. -/
def Steps (P : List Char → List Char → Prop) (p : Pattern) : Prop :=
  ∀ r, Fails p r ∨ ∃ cs r', ReadsFirst p r cs r' ∧ cs ≠ [] ∧ P cs r'.rest

theorem Steps.alt (hp : Steps P p) (hq : Steps P q) : Steps P (alt p q) := by
  intro r
  rcases hp r with hfails | ⟨cs, r', hfirst, h⟩
  · rcases hq r with hfails' | ⟨cs, r', hsecond, h⟩
    · exact .inl (.alt hfails hfails')
    · exact .inr ⟨cs, r', .altSecond hfails hsecond, h⟩
  · exact .inr ⟨cs, r', .altFirst hfirst, h⟩

theorem Steps.oneOf {ps : List Pattern} (h : ∀ p ∈ ps, Steps P p) : Steps P (oneOf ps) := by
  induction ps with
  | nil =>
    intro r
    refine .inl fun cs r' hreads => ?_
    obtain ⟨_, hnone, -⟩ := exists_of_reads_one hreads
    cases hnone
  | cons p more ih =>
    obtain ⟨hp, hmore⟩ := List.forall_mem_cons.1 h
    cases more with
    | nil => exact hp
    | cons q more => exact hp.alt (ih hmore)

/-- The last of several steps, if there is any. -/
def LastStep (P : List Char → List Char → Prop) (cs rest : List Char) : Prop :=
  cs = [] ∨ ∃ front last, cs = front ++ last ∧ last ≠ [] ∧ P last rest

theorem Steps.exists_repeats (h : Steps P p) (r : Reading) :
    ∃ cs r', Repeats p r cs r' ∧ Fails p r' ∧ LastStep P cs r'.rest := by
  induction hlength : r.rest.length using Nat.strongRecOn generalizing r with
  | ind length ih =>
    rcases h r with hfails | ⟨cs, r₁, hfirst, hne, hstep⟩
    · exact ⟨[], r, .done hfails, hfails, .inl rfl⟩
    · have hrest := hfirst.reads.rest_eq
      have hpos := List.length_pos_iff.2 hne
      have hshorter : r₁.rest.length < length := by
        rw [← hlength, hrest, List.length_append]
        omega
      obtain ⟨ds, r', hmore, hfails, hlast⟩ := ih _ hshorter r₁ rfl
      refine ⟨cs ++ ds, r', .more hfirst hne hmore, hfails, .inr ?_⟩
      rcases hlast with rfl | ⟨front, last, rfl, hlast⟩
      · -- the first step is the only one
        have hsame : r₁.rest = r'.rest := hmore.reads.rest_eq
        exact ⟨[], cs, List.append_nil cs, hne, hsame ▸ hstep⟩
      · exact ⟨cs ++ front, last, (List.append_assoc ..).symm, hlast⟩

/-- What repetitions read at the start of a text, up to where the pattern fails. -/
theorem Steps.leading_star (h : Steps P p) (text : List Char) :
    ∃ r' : Reading, text = (star p).leading text ++ r'.rest ∧ Fails p r' ∧
      LastStep P ((star p).leading text) r'.rest := by
  obtain ⟨cs, r', hrepeats, hfails, hlast⟩ := h.exists_repeats (.atStart text)
  have htext : text = cs ++ r'.rest := hrepeats.reads.rest_eq
  have hleading : (star p).leading text = cs := by
    rw [htext] at hrepeats ⊢
    exact (ReadsFirst.star hrepeats).leading_eq
  exact ⟨r', by rw [hleading, ← htext], hfails, by rw [hleading]; exact hlast⟩

/-- Where one of several patterns can be read, all of them together do not fail. -/
theorem Reads.oneOf {ps : List Pattern} {r' : Reading} (h : Reads p r cs r') (hp : p ∈ ps) :
    Reads (oneOf ps) r cs r' := by
  induction ps with
  | nil => exact absurd hp List.not_mem_nil
  | cons q more ih =>
    cases more with
    | nil => exact List.mem_singleton.1 hp ▸ h
    | cons _ _ =>
      rcases List.mem_cons.1 hp with rfl | hp
      · exact .altFirst h
      · exact .altSecond (ih hp)

/-- A run of at least one character of a set. -/
theorem Steps.many1 (set : Char → Bool) :
    Steps (fun cs _ => ∀ c ∈ cs, set c = true) (many true 1 set) := by
  intro r
  have hrest := (List.takeWhile_append_dropWhile (p := set) (l := r.rest)).symm
  have hset : ∀ c ∈ r.rest.takeWhile set, set c = true := List.all_eq_true.1 List.all_takeWhile
  by_cases hnil : r.rest.takeWhile set = []
  · refine .inl fun cs r' hreads => ?_
    obtain ⟨hpasses, hcs, henough⟩ := exists_of_reads_many hreads
    obtain ⟨c, more, rfl⟩ := List.exists_cons_of_length_pos henough
    rw [hpasses.rest_eq, List.cons_append,
      List.takeWhile_cons_of_pos (hcs c List.mem_cons_self)] at hnil
    cases hnil
  · obtain ⟨r', hpasses, hr'⟩ := exists_passes hrest
    refine .inr ⟨_, r', .manyLongest hpasses hset (List.length_pos_iff.2 hnil) ?_, hnil, hset⟩
    intro c hc
    have hstop := List.head?_dropWhile_not set r.rest
    rw [hr'] at hc
    rw [Option.mem_def.1 hc] at hstop
    simpa using hstop

end CodeSurvey.Pattern
