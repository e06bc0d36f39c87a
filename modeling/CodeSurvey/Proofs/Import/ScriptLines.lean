import CodeSurvey.Proofs.Import.Quoted

/-!
The script patterns on import lines. Main statements: imports and exports with `from` are found for
exactly the sources that are not empty, in order; an import for its effects is found nowhere; a call
is found only where one source opens it and the next one closes it, and then it takes what stands
between them for its text.
-/

namespace CodeSurvey.Import

open Pattern

variable {name : String} {gap last s t u b front : List Char} {r r' : Reading} {cs : List Char}
  {parts more : List (List Char × List Char)}

/-! ### Gaps -/

/-- What stands between two sources: the end of a line, if any, and the front of the next. -/
def IsGap (gap : List Char) : Prop :=
  ∃ lead name, (lead = [] ∨ lead = ";\n".toList) ∧ IsName name ∧ gap = lead ++ ImportLine.front name

/-- Gaps with the sources behind them; a source may have become empty. -/
def IsScript (parts : List (List Char × List Char)) : Prop :=
  ∀ part ∈ parts, IsGap part.1 ∧ Plain part.2

/-- The text ends in `from` between blanks and holds no quote. -/
structure EndsInFrom (gap : List Char) : Prop where
  unquoted : Unquoted gap
  ends : ∃ start c, Text.isBlank c = false ∧ gap = start ++ c :: " from ".toList

theorem isQuote_of_isBlank {c : Char} (h : Text.isBlank c = true) : isQuote c = false := by
  rw [Bool.eq_false_iff]
  intro hc
  have hmem : c ∈ ['\'', '"'] := List.contains_iff_mem.1 hc
  rcases List.mem_cons.1 hmem with rfl | hmem
  · exact absurd h (by decide)
  · obtain rfl := List.mem_singleton.1 hmem
    exact absurd h (by decide)

theorem Plain.unquoted (h : Plain s) : Unquoted s := fun c hc => (h c hc).2

theorem Unquoted.append (hs : Unquoted s) (ht : Unquoted t) : Unquoted (s ++ t) :=
  fun c hc => (List.mem_append.1 hc).elim (hs c) (ht c)

theorem Blank.unquoted (h : Blank s) : Unquoted s := fun c hc => isQuote_of_isBlank (h c hc)

theorem Plain.of_append (h : Plain (s ++ t)) : Plain s :=
  fun c hc => h c (List.mem_append_left t hc)

/-- A plain text has no blanks behind another text. -/
theorem Plain.eq_nil_of_blank (h : Plain (front ++ b)) (hb : Blank b) : b = [] :=
  List.eq_nil_iff_forall_not_mem.2 fun c hc =>
    hb.notMem (h c (List.mem_append_right front hc)).1 hc

theorem IsName.endsInFrom {name : List Char} (h : IsName name) :
    EndsInFrom (name ++ " from ".toList) where
  unquoted := h.plain.unquoted.append (by decide)
  ends := by
    obtain ⟨start, c, rfl⟩ : ∃ start c, name = start ++ [c] :=
      ⟨_, _, (List.dropLast_concat_getLast h.ne_nil).symm⟩
    exact ⟨start, c, (h.plain c (by simp)).1, by rw [List.append_assoc]; rfl⟩

theorem EndsInFrom.prepend (h : EndsInFrom gap) (hs : Unquoted s) : EndsInFrom (s ++ gap) where
  unquoted := hs.append h.unquoted
  ends := by
    obtain ⟨start, c, hc, rfl⟩ := h.ends
    exact ⟨s ++ start, c, hc, by rw [List.append_assoc]⟩

theorem front_eq (name : List Char) :
    ImportLine.front name = "import ".toList ++ (name ++ " from ".toList) :=
  List.append_assoc ..

theorem IsGap.endsInFrom (h : IsGap gap) : EndsInFrom gap := by
  obtain ⟨lead, name, hlead, hname, rfl⟩ := h
  have hunquoted : Unquoted lead := by rcases hlead with rfl | rfl <;> decide
  rw [front_eq]
  exact (hname.endsInFrom.prepend (by decide)).prepend hunquoted

/-- The last character before the blanks at the end is that of `from`. -/
theorem EndsInFrom.last_eq {d : Char} (h : EndsInFrom (front ++ d :: b)) (hb : Blank b)
    (hd : Text.isBlank d = false) : d = 'm' := by
  obtain ⟨start, c, -, heq⟩ := h.ends
  have hlast : front ++ d :: b = (start ++ c :: " fro".toList) ++ 'm' :: [' '] := by simpa using heq
  exact (Text.eq_of_last (fun e => !Text.isBlank e) (fun e he => by simp [hb e he])
    (List.forall_mem_singleton.2 rfl) (by simp [hd]) rfl hlast).2.1

/-! ### What is taken for a text in quotes -/

/-- A pattern that reads a text in quotes reads a source behind its gap, or the gap between two
    sources behind the first of them. -/
theorem quoted_cases_of_reads {captures : List Capture} {before behind : List Char}
    (hparts : IsScript parts) (hlast : Unquoted last) (hr : quoted parts last = before ++ r.rest)
    (hu : Unquoted u) (h : ReadsQuoted r captures u s behind) :
    (∃ front, IsGap (front ++ u) ∧ (front ++ u, s) ∈ parts) ∨
      ∃ inner front gap next more ahead rest,
        parts = ahead ++ (gap, front ++ u) :: (s, next) :: more ∧
          before = inner ++ '\'' :: front ∧ behind = next ++ '\'' :: rest := by
  obtain ⟨q, q', hq, hq', hrest⟩ := h.rest_eq
  have hunquoted : UnquotedParts parts := fun part hpart =>
    ⟨(hparts part hpart).1.endsInFrom.unquoted, (hparts part hpart).2.unquoted⟩
  have htext : quoted parts last = before ++ u ++ q :: (s ++ q' :: behind) := by
    rw [hr, hrest, List.append_assoc]
  rcases quoted_cases hunquoted hlast hu h.unquoted hq hq' htext with ⟨front, hmem⟩ | hgap
  · exact .inl ⟨front, (hparts _ hmem).1, hmem⟩
  · exact .inr hgap

theorem findAll_bareImport (hparts : IsScript parts) (hlast : Unquoted last) :
    bareImport.findAll (quoted parts last) = [] := by
  refine findAll_eq_nil fun before r hpasses cs r' hreads => ?_
  obtain ⟨b, s, hb, hne, hs⟩ := readsQuoted_bareImport hreads
  have hu : Unquoted ("import".toList ++ b) := Unquoted.append (by decide) hb.unquoted
  rcases quoted_cases_of_reads hparts hlast hpasses.rest_eq hu hs with
    ⟨front, hgap, -⟩ | ⟨-, front, gap, next, more, ahead, -, rfl, -, -⟩
  · -- a gap ends in another word
    have hends : EndsInFrom ((front ++ "impor".toList) ++ 't' :: b) := by
      simpa using hgap.endsInFrom
    exact absurd (hends.last_eq hb (by decide)) (by decide)
  · -- a source does not end in a blank
    have hplain : Plain ((front ++ "import".toList) ++ b) := by
      simpa using (hparts (gap, front ++ ("import".toList ++ b)) (by simp)).2
    exact hne (hplain.eq_nil_of_blank hb)

/-! ### Calls -/

/-- The names of the functions that load a module. -/
def callNames : List String := ["require", "import"]

/-- A source that ends in the name of a function and an opening parenthesis. -/
def OpensCall (name : String) (source : List Char) : Prop :=
  ∃ front, source = front ++ name.toList ++ ['('] ∧ front.getLast?.any Text.isWordChar = false

theorem plain_of_mem_callNames (h : name ∈ callNames) : Plain name.toList := by
  revert name
  decide

theorem beforeWord_of_mem_callNames (h : name ∈ callNames) (hr : r.rest = name.toList ++ s) :
    r.beforeWord = true := by
  rw [Reading.beforeWord, hr]
  rcases List.mem_cons.1 h with rfl | h
  · rfl
  · obtain rfl := List.mem_singleton.1 h
    rfl

/-- No word goes on across a quote. -/
theorem afterWord_behind_quote {r₁ : Reading} {inner : List Char}
    (passes : Passes r₁ (inner ++ '\'' :: front) r) :
    r.afterWord = front.getLast?.any Text.isWordChar := by
  rcases List.eq_nil_or_concat front with rfl | ⟨start, c, rfl⟩
  · exact passes.afterWord_eq
  · rw [List.concat_eq_append] at passes ⊢
    rw [← List.cons_append, ← List.append_assoc] at passes
    rw [List.getLast?_concat]
    exact passes.afterWord_eq

/-- A plain text begins where the blanks end. -/
theorem Plain.head?_of_blank {next behind rest : List Char} {c : Char} (h : Plain next)
    (hb : Blank b) (hc : c ≠ '\'') (heq : b ++ c :: behind = next ++ '\'' :: rest) :
    next.head? = some c := by
  cases next with
  | nil =>
    cases b with
    | nil => exact absurd (List.cons.inj heq).1 hc
    | cons d b =>
      obtain ⟨rfl, -⟩ := List.cons.inj heq
      exact absurd (List.mem_cons_self ..) (hb.notMem rfl)
  | cons e next =>
    cases b with
    | nil => exact congrArg some (List.cons.inj heq).1.symm
    | cons d b =>
      obtain ⟨rfl, -⟩ := List.cons.inj heq
      exact absurd (List.mem_cons_self ..) (hb.notMem (h d (List.mem_cons_self ..)).1)

/-- A call is read between two sources only: the first opens it and the second closes it. -/
theorem exists_call_of_mem_findAll {m : Match} (hname : name ∈ callNames) (hparts : IsScript parts)
    (hlast : Unquoted last) (hm : m ∈ (callOf name).findAll (quoted parts last)) :
    ∃ ahead gap source next more,
      parts = ahead ++ (gap, source) :: (m.group 1, next) :: more ∧
        OpensCall name source ∧ next.head? = some ')' := by
  obtain ⟨before, r, hpasses, hmatch⟩ := exists_place_of_mem_findAll hm
  obtain ⟨cs, r', hreads, hm'⟩ := run_reads _ hmatch
  obtain rfl := Option.some.inj hm'
  obtain ⟨hedge, b, b', s, b'', hb, hb', hb'', hs⟩ := readsQuoted_callOf hreads
  rw [hs.group_eq]
  have hu : Unquoted (name.toList ++ (b ++ '(' :: b')) :=
    (plain_of_mem_callNames hname).unquoted.append
      (hb.unquoted.append (List.forall_mem_cons.2 ⟨rfl, hb'.unquoted⟩))
  rcases quoted_cases_of_reads hparts hlast hpasses.rest_eq hu hs with
    ⟨front, hgap, -⟩ | ⟨inner, front, gap, next, more, ahead, rest, rfl, rfl, hnext⟩
  · -- a gap ends in no parenthesis
    have hends : EndsInFrom ((front ++ (name.toList ++ b)) ++ '(' :: b') := by
      simpa using hgap.endsInFrom
    exact absurd (hends.last_eq hb' (by decide)) (by decide)
  · -- a source leaves no room for the blanks of the pattern
    have hsource : Plain ((front ++ name.toList ++ b ++ ['(']) ++ b') := by
      simpa using (hparts (gap, front ++ (name.toList ++ (b ++ '(' :: b'))) (by simp)).2
    obtain rfl := hsource.eq_nil_of_blank hb'
    obtain rfl := hsource.of_append.of_append.eq_nil_of_blank hb
    have hafter : r.afterWord = false := by
      obtain ⟨q, q', -, -, hrest⟩ := hs.rest_eq
      have hbefore := beforeWord_of_mem_callNames hname (hrest.trans (List.append_assoc ..))
      rw [hbefore] at hedge
      exact Bool.eq_false_iff.2 hedge
    have hopens : OpensCall name (front ++ name.toList ++ ['(']) :=
      ⟨front, rfl, (afterWord_behind_quote hpasses).symm.trans hafter⟩
    refine ⟨ahead, gap, _, next, more, rfl, by simpa using hopens, ?_⟩
    exact Plain.head?_of_blank (hparts (s, next) (by simp)).2 hb'' (by decide) hnext

theorem exists_readsFirst_callOf (hname : name ∈ callNames) (hafter : r.afterWord = false)
    (hr : r.rest = name.toList ++ '(' :: '\'' :: (s ++ '\'' :: ')' :: t)) (hs : Unquoted s)
    (hne : s ≠ []) : ∃ cs r', ReadsFirst (callOf name) r cs r' := by
  obtain ⟨r₁, h₁, hr₁⟩ := exists_passes hr
  obtain ⟨r₂, h₂, hr₂⟩ := exists_passes (show r₁.rest = "(".toList ++ _ from hr₁)
  obtain ⟨r₃, h₃, hr₃, -⟩ := readsFirst_quotedText hr₂ isQuote_single isQuote_single hs hne
  obtain ⟨r₄, h₄, -⟩ := exists_passes (show r₃.rest = ")".toList ++ t from hr₃)
  have hedge : r.afterWord ≠ r.beforeWord := by
    rw [hafter, beforeWord_of_mem_callNames hname hr]
    exact Bool.false_ne_true
  have hclose : ReadsFirst (seq [blanks, lit ")"]) r₃ _ r₄ :=
    (ReadsFirst.noBlanks hr₃ rfl).cat (.text h₄)
  have hopen : ReadsFirst (seq [blanks, lit "(", blanks, quotedText, blanks, lit ")"]) r₁ _ r₄ :=
    (ReadsFirst.noBlanks hr₁ rfl).cat ((ReadsFirst.text h₂).cat
      ((ReadsFirst.noBlanks hr₂ rfl).cat (h₃.cat hclose)))
  exact ⟨_, r₄, (ReadsFirst.wordEdge hedge).cat ((ReadsFirst.text h₁).cat hopen)⟩

/-- Where one source opens a call and the next one closes it, a call is found. -/
theorem findAll_callOf_ne_nil {ahead : List (List Char × List Char)}
    {before source next : List Char} (hname : name ∈ callNames)
    (hparts : IsScript (ahead ++ (before, source) :: (gap, next) :: more))
    (hopens : OpensCall name source) (hcloses : next.head? = some ')') :
    (callOf name).findAll
      (quoted (ahead ++ (before, source) :: (gap, next) :: more) last) ≠ [] := by
  obtain ⟨front, rfl, hfront⟩ := hopens
  obtain ⟨next, rfl⟩ := List.head?_eq_some_iff.1 hcloses
  have hgap : IsGap gap := (hparts (gap, ')' :: next) (by simp)).1
  have htext : (Reading.atStart (quoted (ahead ++ (before, front ++ name.toList ++ ['(']) ::
      (gap, ')' :: next) :: more) last)).rest = (quoted ahead [] ++ before) ++ '\'' :: front ++
        (name.toList ++ '(' :: '\'' ::
          (gap ++ '\'' :: ')' :: (next ++ '\'' :: quoted more last))) := by
    rw [Reading.atStart, quoted_append, quoted_eq_append]
    simp [quoted]
  obtain ⟨r, hpasses, hr⟩ := exists_passes htext
  have hafter : r.afterWord = false := (afterWord_behind_quote hpasses).trans hfront
  have hne : gap ≠ [] := by
    obtain ⟨start, c, -, rfl⟩ := hgap.endsInFrom.ends
    simp
  obtain ⟨cs, r', hfirst⟩ := exists_readsFirst_callOf hname hafter hr hgap.endsInFrom.unquoted hne
  exact findAll_ne_nil hpasses hfirst.matchAt?_eq (by rw [hr]; simp)

/-! ### Imports and exports from a source -/

theorem unquoted_from {b' : List Char} (hb : Blank b) (hb' : Blank b') :
    Unquoted (b ++ ("from".toList ++ b')) :=
  hb.unquoted.append (Unquoted.append (by decide) hb'.unquoted)

/-- Between the keyword and `from` a source has not begun yet. -/
theorem fails_fromSource_inside {c : Char} (hc : Text.isBlank c = false)
    (hu : Unquoted (s ++ c :: " from ".toList))
    (hr : r.rest = (s ++ c :: " from ".toList) ++ '\'' :: t) : Fails fromSource r := by
  intro cs r' hreads
  obtain ⟨b, b', s', hb, hb', -, -, hs⟩ := readsQuoted_fromSource hreads
  obtain ⟨q, q', hq, hq', hrest⟩ := hs.rest_eq
  obtain ⟨heq, -, -⟩ := Text.eq_of_first isQuote hu (unquoted_from hb hb') isQuote_single hq
    (hr.symm.trans hrest)
  have hlast : (s ++ c :: " fro".toList) ++ 'm' :: [' '] = (b ++ "fro".toList) ++ 'm' :: b' := by
    simpa using heq
  obtain ⟨hfront, -, -⟩ := Text.eq_of_last (fun e => !Text.isBlank e)
    (List.forall_mem_singleton.2 rfl) (fun e he => by simp [hb' e he]) rfl rfl hlast
  have hblank : (s ++ [c, ' ']) ++ "fro".toList = b ++ "fro".toList := by simpa using hfront
  exact hb.notMem hc (List.append_cancel_right hblank ▸ by simp)

/-- A source does not begin at its quote. -/
theorem fails_fromSource_quote (hr : r.rest = '\'' :: t) : Fails fromSource r := by
  intro cs r' hreads
  obtain ⟨b, b', s', hb, -, hne, -, hs⟩ := readsQuoted_fromSource hreads
  obtain ⟨q, q', -, -, hrest⟩ := hs.rest_eq
  obtain ⟨c, b, rfl⟩ := List.exists_cons_of_ne_nil hne
  obtain ⟨rfl, -⟩ := List.cons.inj (hr.symm.trans hrest)
  exact hb.notMem rfl (List.mem_cons_self ..)

/-- An empty source is none. -/
theorem fails_fromSource_empty (hu : Unquoted u) (hr : r.rest = u ++ '\'' :: '\'' :: t) :
    Fails fromSource r := by
  intro cs r' hreads
  obtain ⟨b, b', s, hb, hb', -, -, hs⟩ := readsQuoted_fromSource hreads
  obtain ⟨q, q', hq, -, hrest⟩ := hs.rest_eq
  obtain ⟨-, -, hsource⟩ := Text.eq_of_first isQuote hu (unquoted_from hb hb') isQuote_single hq
    (hr.symm.trans hrest)
  obtain ⟨c, s, rfl⟩ := List.exists_cons_of_ne_nil hs.ne_nil
  obtain ⟨rfl, -⟩ := List.cons.inj hsource
  exact hs.unquoted.notMem isQuote_single (List.mem_cons_self ..)

/-- What the pattern reads first ends with the closing quote of `s`, which it remembers; `rest` is
    then ahead. -/
def FindsSource (p : Pattern) (r : Reading) (s rest : List Char) : Prop :=
  ∃ cs r', ReadsFirst p r (cs ++ ['\'']) r' ∧ r'.rest = rest ∧
    ∃ more, r'.captures = ⟨1, s ++ more, s.length⟩ :: r.captures

theorem FindsSource.cat {p q : Pattern} {r₁ : Reading} {rest : List Char}
    (first : ReadsFirst q r cs r₁) (hq : q.groupless = true) (h : FindsSource p r₁ s rest) :
    FindsSource (.cat q p) r s rest := by
  obtain ⟨ds, r', hfirst, hrest, more, hcaptures⟩ := h
  refine ⟨cs ++ ds, r', ?_, hrest, more, ?_⟩
  · rw [List.append_assoc]
    exact first.cat hfirst
  · rw [hcaptures, first.reads.captures_eq hq]

/-- Anything up to a source. -/
def upToSource : Pattern := cat (many false 0 fun _ => true) fromSource

theorem FindsSource.now {rest : List Char} (h : FindsSource fromSource r s rest) :
    FindsSource upToSource r s rest := by
  obtain ⟨cs, r', hfirst, h⟩ := h
  exact ⟨cs, r', .shortestNow hfirst, h⟩

theorem FindsSource.later {r₁ : Reading} {rest : List Char} (passes : Passes r u r₁)
    (early : ∀ ls s, ls ≠ [] → ls <:+ u → Passes s ls r₁ → Fails fromSource s)
    (h : FindsSource upToSource r₁ s rest) : FindsSource upToSource r s rest := by
  obtain ⟨cs, r', hfirst, hrest, more, hcaptures⟩ := h
  refine ⟨u ++ cs, r', ?_, hrest, more, ?_⟩
  · rw [List.append_assoc]
    exact .shortestLater passes (fun _ _ => rfl) early hfirst
  · rw [hcaptures, passes.captures_eq]

theorem findsSource_fromSource (hr : r.rest = " from ".toList ++ '\'' :: (s ++ '\'' :: t))
    (hs : Unquoted s) (hne : s ≠ []) : FindsSource fromSource r s t := by
  obtain ⟨r₁, h₁, hr₁⟩ := exists_passes
    (show r.rest = [' '] ++ ("from".toList ++ [' '] ++ '\'' :: (s ++ '\'' :: t)) from hr)
  obtain ⟨r₂, h₂, hr₂⟩ := exists_passes (hr₁.trans (List.append_assoc ..))
  obtain ⟨r₃, h₃, hr₃⟩ := exists_passes hr₂
  obtain ⟨r₄, h₄, hr₄, hquoted⟩ := readsFirst_quotedText hr₃ isQuote_single isQuote_single hs hne
  have hsource : FindsSource quotedText r₃ s t :=
    ⟨'\'' :: s, r₄, h₄, hr₄, hquoted.captures_eq⟩
  exact ((hsource.cat (.oneBlank h₃ hr₃ rfl) rfl).cat (.text h₂) rfl).cat (.oneBlank h₁ hr₁ rfl) rfl

/-- The sources that are not empty. -/
def named (sources : List (List Char)) : List (List Char) := sources.filter (· != [])

theorem named_cons_of_ne_nil (hs : s ≠ []) (sources : List (List Char)) :
    named (s :: sources) = s :: named sources := List.filter_cons_of_pos (by simpa using hs)

/-- A source behind its gap is found. -/
theorem EndsInFrom.findsSource (hgap : EndsInFrom gap)
    (hr : r.rest = gap ++ '\'' :: (s ++ '\'' :: t)) (hs : Unquoted s) (hne : s ≠ []) :
    FindsSource upToSource r s t := by
  obtain ⟨start, c, hc, rfl⟩ := hgap.ends
  obtain ⟨r₁, h₁, hr₁⟩ := exists_passes
    (show r.rest = (start ++ [c]) ++ (" from ".toList ++ '\'' :: (s ++ '\'' :: t)) by
      simpa using hr)
  refine .later h₁ (fun ls r' hne' hls hpasses => ?_) (.now (findsSource_fromSource hr₁ hs hne))
  obtain ⟨behind, rfl, hbehind⟩ := (List.suffix_concat_iff.1 hls).resolve_left hne'
  have hunquoted : Unquoted (behind ++ c :: " from ".toList) := fun d hd =>
    hgap.unquoted d ((List.mem_append.1 hd).elim
      (fun h => List.mem_append_left _ (hbehind.subset h)) (List.mem_append_right _))
  refine fails_fromSource_inside hc hunquoted (t := s ++ '\'' :: t) ?_
  rw [hpasses.rest_eq, hr₁]
  simp

/-- An empty source is passed over with its gap. -/
theorem EndsInFrom.passes_empty {r₁ : Reading} {rest : List Char} (hgap : EndsInFrom gap)
    (passes : Passes r (gap ++ ['\'', '\'']) r₁)
    (h : FindsSource upToSource r₁ s rest) : FindsSource upToSource r s rest := by
  refine h.later passes fun ls r' hne hls hpasses => ?_
  obtain ⟨front, rfl, hfront⟩ := (List.suffix_concat_iff.1
    (show ls <:+ (gap ++ ['\'']) ++ ['\''] by rwa [List.append_assoc])).resolve_left hne
  rcases List.suffix_concat_iff.1 hfront with rfl | ⟨behind, rfl, hbehind⟩
  · exact fails_fromSource_quote hpasses.rest_eq
  · have hunquoted : Unquoted behind := fun d hd => hgap.unquoted d (hbehind.subset hd)
    refine fails_fromSource_empty hunquoted (t := r₁.rest) ?_
    rw [hpasses.rest_eq]
    simp

/-- From a gap on, the first source that is not empty is found. -/
theorem exists_findsSource (hgap : EndsInFrom gap) (hparts : IsScript parts) (hs : Plain s)
    (hr : r.rest = gap ++ '\'' :: (s ++ '\'' :: quoted parts last))
    (hsome : named (s :: parts.map (·.2)) ≠ []) :
    ∃ found more, named (s :: parts.map (·.2)) = found :: named (more.map (·.2)) ∧
      more <:+ parts ∧ FindsSource upToSource r found (quoted more last) := by
  induction parts generalizing gap s r with
  | nil =>
    by_cases hne : s = []
    · rw [hne] at hsome
      exact absurd rfl hsome
    · exact ⟨s, [], named_cons_of_ne_nil hne _, List.suffix_refl _,
        hgap.findsSource hr hs.unquoted hne⟩
  | cons part parts ih =>
    obtain ⟨⟨hgap', hs'⟩, hparts'⟩ := List.forall_mem_cons.1 hparts
    by_cases hne : s = []
    · subst hne
      obtain ⟨r₁, h₁, hr₁⟩ := exists_passes (show r.rest = (gap ++ ['\'', '\'']) ++ _ by
        rw [hr, List.append_assoc]; rfl)
      obtain ⟨found, more, hfound, hmore, h⟩ := ih hgap'.endsInFrom hparts' hs' hr₁ hsome
      exact ⟨found, more, hfound, hmore.trans (List.suffix_cons _ _), hgap.passes_empty h₁ h⟩
    · exact ⟨s, part :: parts, named_cons_of_ne_nil hne _, List.suffix_refl _,
        hgap.findsSource hr hs.unquoted hne⟩

/-- A clause begins with its keyword. -/
theorem fails_fromClause_of_head {c : Char} (hr : r.rest = c :: t) (hi : c ≠ 'i') (he : c ≠ 'e') :
    Fails fromClause r := by
  intro cs r' hreads
  obtain ⟨_, _, _, hedge, hmore⟩ := exists_of_reads_cat hreads
  obtain ⟨-, rfl⟩ := edge_of_reads_wordEdge hedge
  obtain ⟨_, _, _, hkeyword, -⟩ := exists_of_reads_cat hmore
  cases hkeyword with
  | altFirst h => exact hi (List.cons.inj (hr.symm.trans (passes_of_reads_text h).rest_eq)).1
  | altSecond h => exact he (List.cons.inj (hr.symm.trans (passes_of_reads_text h).rest_eq)).1

/-- From the keyword of a line on, the first source that is not empty is found. -/
theorem exists_findsSource_fromClause {name : List Char} (hname : IsName name)
    (hafter : r.afterWord = false) (hparts : IsScript parts) (hs : Plain s)
    (hr : r.rest = ImportLine.front name ++ '\'' :: (s ++ '\'' :: quoted parts last))
    (hsome : named (s :: parts.map (·.2)) ≠ []) :
    ∃ found more, named (s :: parts.map (·.2)) = found :: named (more.map (·.2)) ∧
      more <:+ parts ∧ FindsSource fromClause r found (quoted more last) := by
  have hrest : r.rest = "import".toList ++ ([' '] ++
      ((name ++ " from ".toList) ++ '\'' :: (s ++ '\'' :: quoted parts last))) := by
    rw [hr, front_eq]
    rfl
  obtain ⟨r₁, h₁, hr₁⟩ := exists_passes hrest
  obtain ⟨r₂, h₂, hr₂⟩ := exists_passes hr₁
  obtain ⟨found, more, hfound, hmore, h⟩ :=
    exists_findsSource hname.endsInFrom hparts hs hr₂ hsome
  have hedge : r.afterWord ≠ r.beforeWord := by
    rw [hafter, Reading.beforeWord, hrest]
    exact Bool.false_ne_true
  have hblank : ReadsFirst blanks1 r₁ [' '] r₂ := by
    obtain ⟨c, name, rfl⟩ := List.exists_cons_of_ne_nil hname.ne_nil
    exact .oneBlank h₂ hr₂ (hname.plain c (List.mem_cons_self ..)).1
  have hkeyword : ReadsFirst (alt (lit "import") (lit "export")) r "import".toList r₁ :=
    .altFirst (.text h₁)
  exact ⟨found, more, hfound, hmore,
    ((h.cat hblank rfl).cat hkeyword rfl).cat (.wordEdge hedge) rfl⟩

/-- Without a source nothing is found. -/
theorem fails_fromClause (hparts : IsScript parts) (hlast : Unquoted last)
    (hnone : named (parts.map (·.2)) = []) (hr : quoted parts last = u ++ r.rest) :
    Fails fromClause r := by
  have hempty : ∀ part ∈ parts, part.2 = [] := fun part hpart => by
    have hfilter := List.filter_eq_nil_iff.1 hnone part.2 (List.mem_map_of_mem hpart)
    simpa using hfilter
  intro cs r' hreads
  obtain ⟨us, r₁, ds, hpasses, hsource⟩ := exists_fromSource_of_fromClause hreads
  obtain ⟨b, b', s, hb, hb', hne, -, hs⟩ := readsQuoted_fromSource hsource
  have hr₁ : quoted parts last = (u ++ us) ++ r₁.rest := by
    rw [hr, hpasses.rest_eq, List.append_assoc]
  rcases quoted_cases_of_reads hparts hlast hr₁ (unquoted_from hb hb') hs with
    ⟨front, -, hmem⟩ | ⟨-, front, gap, next, more, ahead, -, rfl, -, -⟩
  · exact hs.ne_nil (hempty _ hmem)
  · have := hempty (gap, front ++ (b ++ ("from".toList ++ b'))) (by simp)
    simp at this

/-- The end of a line holds no clause. -/
theorem fails_fromClause_lead {lead : List Char} (hlead : lead = [] ∨ lead = ";\n".toList)
    (hne : s ≠ []) (hs : s <:+ lead) (hr : r.rest = s ++ t) : Fails fromClause r := by
  obtain ⟨c, s, rfl⟩ := List.exists_cons_of_ne_nil hne
  have hc : c ∈ lead := hs.subset (List.mem_cons_self ..)
  have hkeyword : 'i' ∉ lead ∧ 'e' ∉ lead := by rcases hlead with rfl | rfl <;> decide
  exact fails_fromClause_of_head hr (fun hi => hkeyword.1 (hi ▸ hc)) fun he => hkeyword.2 (he ▸ hc)

theorem afterWord_behind_lead {lead : List Char} {r₁ : Reading}
    (hlead : lead = [] ∨ lead = ";\n".toList) (passes : Passes r lead r₁)
    (h : r.afterWord = false) : r₁.afterWord = false := by
  rcases hlead with rfl | rfl
  · cases passes
    exact h
  · have hpasses : Passes r ([';'] ++ ['\n']) r₁ := passes
    exact hpasses.afterWord_eq

/-- The sources that are not empty are found one after another. -/
theorem exists_scans_fromClause (change : Match → List Char) (hparts : IsScript parts)
    (hlast : Unquoted last) (hr : r.rest = quoted parts last) (hcaptures : r.captures = [])
    (hafter : r.afterWord = false) :
    ∃ ms out, Scans fromClause change r ms out ∧
      ms.map (·.group 1) = named (parts.map (·.2)) := by
  induction h : parts.length using Nat.strong_induction_on generalizing parts r with
  | _ n ih =>
    by_cases hsome : named (parts.map (·.2)) = []
    · obtain ⟨r₁, h₁, hr₁⟩ := exists_passes (List.append_nil r.rest).symm
      refine ⟨[], _, .misses h₁ (fun ls s _ hls hs => ?_) (.done hr₁), by rw [hsome]; rfl⟩
      obtain ⟨before, hbefore⟩ := hls
      have hrest : quoted parts last = before ++ s.rest := by
        rw [← hr, ← hbefore, hs.rest_eq, hr₁, List.append_nil]
      exact fails_fromClause hparts hlast hsome hrest
    · cases parts with
      | nil => exact absurd rfl hsome
      | cons part parts =>
        obtain ⟨gap, source⟩ := part
        obtain ⟨⟨⟨lead, name, hlead, hname, rfl⟩, hsource⟩, hparts'⟩ :=
          List.forall_mem_cons.1 hparts
        -- behind the end of the line a clause begins, which reaches to the first source
        obtain ⟨r₁, h₁, hr₁⟩ := exists_passes (hr.trans (List.append_assoc ..))
        obtain ⟨found, more, hfound, hmore, cs, r', hfirst, hr', rest, hremembered⟩ :=
          exists_findsSource_fromClause hname (afterWord_behind_lead hlead h₁ hafter) hparts'
            hsource hr₁ hsome
        obtain ⟨r₂, h₂, hr₂⟩ := exists_passes hfirst.reads.rest_eq
        obtain ⟨ms, out, hscans, hgroups⟩ := ih more.length
          (by rw [← h]; exact Nat.lt_succ_of_le hmore.length_le)
          (fun part hpart => hparts' part (hmore.subset hpart)) (hr₂.trans hr')
          (h₂.captures_eq.trans (h₁.captures_eq.trans hcaptures)) h₂.afterWord_eq rfl
        have hnonempty : cs ++ ['\''] ≠ [] := by simp
        refine ⟨_, _, .misses h₁ (fun ls s hne hls hs => ?_) (.hit hfirst hnonempty h₂ hscans), ?_⟩
        · exact fails_fromClause_lead hlead hne hls hs.rest_eq
        · have hgroup : (matchOf r₁ (cs ++ ['\'']) r').group 1 = found :=
            Match.group_eq hremembered
          rw [List.map_cons, hgroup, hgroups]
          exact hfound.symm

/-- Imports and exports with `from` are found for the sources that are not empty. -/
theorem firstGroups_fromClause (hparts : IsScript parts) (hlast : Unquoted last) :
    firstGroups fromClause (quoted parts last) = named (parts.map (·.2)) := by
  obtain ⟨ms, out, hscans, hgroups⟩ := exists_scans_fromClause (fun m => m.text) hparts hlast
    (r := .atStart (quoted parts last)) rfl rfl rfl
  rw [firstGroups, hscans.findAll_eq, hgroups]

end CodeSurvey.Import
