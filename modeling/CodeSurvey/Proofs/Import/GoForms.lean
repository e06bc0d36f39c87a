import CodeSurvey.Proofs.Import.GoText
import CodeSurvey.Proofs.Pattern.Shortest

/-!
What is listed for the two forms of a Go import. Main statements: imports with a keyword each are
listed unless they take the names of a package over; imports in one group are all listed, after
those whose new name is the keyword. So the forms agree on imports without new names and with
ordinary ones.
-/

namespace CodeSurvey.Import

open Pattern Text

variable {i : GoImport} {is : List GoImport} {r s r' : Reading} {c : Char} {cs : List Char}
  {path name ls rest lead indent ending front : List Char} {found : List (List Char)}

/-! ### Where a single import is read -/

/-- A single import begins a word with its keyword; behind blanks comes a new name or the path. -/
theorem exists_of_reads_goSingle (h : Reads goSingle r cs r') :
    r.afterWord = false ∧ ∃ b c more, Blank b ∧ b ≠ [] ∧ (c = '"' ∨ isWordChar c = true) ∧
      r.rest = "import".toList ++ (b ++ c :: more) := by
  obtain ⟨r₀, _, _, hedge, hmore⟩ := exists_of_reads_cat h
  obtain ⟨hword, rfl⟩ := edge_of_reads_wordEdge hedge
  obtain ⟨r₁, _, _, hkeyword, hmore⟩ := exists_of_reads_cat hmore
  obtain ⟨r₂, b, _, hblanks, hmore⟩ := exists_of_reads_cat hmore
  obtain ⟨r₃, _, _, halias, hpath⟩ := exists_of_reads_cat hmore
  obtain ⟨hpasses, hb, hsome⟩ := exists_of_reads_many hblanks
  have hrest := (passes_of_reads_text hkeyword).rest_eq
  have hbefore : r₀.beforeWord = true := by
    rw [Reading.beforeWord, hrest]
    rfl
  have hafter : r₀.afterWord = false := by
    rw [hbefore] at hword
    exact Bool.eq_false_iff.2 hword
  have hbehind : ∃ c more, (c = '"' ∨ isWordChar c = true) ∧ r₂.rest = c :: more := by
    cases halias with
    | altFirst hname =>
      obtain ⟨r₄, name, _, hname, -⟩ := exists_of_reads_cat hname
      obtain ⟨hpasses, hmem, hsome⟩ := exists_of_reads_many hname
      obtain ⟨c, name, rfl⟩ := List.exists_cons_of_ne_nil (List.ne_nil_of_length_pos hsome)
      exact ⟨c, name ++ r₄.rest, .inr (hmem c (List.mem_cons_self ..)), hpasses.rest_eq⟩
    | altSecond hnothing =>
      cases hnothing
      obtain ⟨r₄, _, _, hquote, -⟩ := exists_of_reads_cat hpath
      exact ⟨'"', r₄.rest, .inl rfl, (passes_of_reads_text hquote).rest_eq⟩
  obtain ⟨c, more, hc, hr₂⟩ := hbehind
  exact ⟨hafter, b, c, more, hb, List.ne_nil_of_length_pos hsome, hc, by
    rw [hrest, hpasses.rest_eq, hr₂]⟩

/-- Up to a blank or a quote only the keyword can stand, and there a blank must be. -/
theorem eq_import_of_reads (h : Reads goSingle r cs r') (hr : r.rest = ls ++ c :: rest)
    (hls : ∀ d ∈ ls, endsPath d = false) (hc : endsPath c = true) :
    ls = "import".toList ∧ isBlank c = true := by
  obtain ⟨-, b, d, more, hb, hne, -, hrest⟩ := exists_of_reads_goSingle h
  obtain ⟨e, b, rfl⟩ := List.exists_cons_of_ne_nil hne
  have he : isBlank e = true := hb e (List.mem_cons_self ..)
  obtain ⟨hkeyword, rfl, -⟩ := eq_of_first endsPath hls (by decide) hc
    (by rw [endsPath, he, Bool.true_or]) (hr.symm.trans hrest)
  exact ⟨hkeyword, he⟩

/-- Within a path in quotes no import is read. -/
theorem misses_goSingle_inQuotes (hpath : ∀ d ∈ path, endsPath d = false) (rest : List Char) :
    Misses goSingle ('"' :: (path ++ ['"'])) rest := by
  have hfails : ∀ {l rest} {s : Reading}, (∀ d ∈ l, endsPath d = false) →
      s.rest = l ++ '"' :: rest → Fails goSingle s := fun hls hs cs s' hreads =>
    absurd (eq_import_of_reads hreads hs hls (by decide)).2 (by decide)
  have hquote : ∀ rest, Misses goSingle ['"'] rest := fun rest =>
    .cons (fun s hs => hfails (l := []) (by simp) hs) misses_nil
  refine Misses.append (hquote _) (.append (fun ls _ hls s hs => ?_) (hquote _))
  exact hfails (fun d hd => hpath d (hls.subset hd)) hs

/-- A word before a blank is no import unless it is the keyword. -/
theorem finds_goSingle_overWord (passes : Passes r name s) (hname : ∀ d ∈ name, isWordChar d = true)
    (hs : s.rest = c :: rest) (hc : isBlank c = true)
    (hkeyword : r.afterWord = true ∨ name ≠ "import".toList) (more : Finds goSingle s found) :
    Finds goSingle r found := by
  induction passes with
  | stay => exact more
  | @past r s d ahead name hr passes ih =>
    obtain ⟨hd, hname'⟩ := List.forall_mem_cons.1 hname
    refine .past hr (fun cs r' hreads => ?_) (ih hname' hs (.inl hd) more)
    have hrest : r.rest = (d :: name) ++ c :: rest := by
      rw [(Passes.past hr passes).rest_eq, hs]
    have hends : ∀ e ∈ d :: name, endsPath e = false := fun e he =>
      endsPath_of_isPathChar (isPathChar_of_isWordChar (hname e he))
    obtain ⟨heq, -⟩ := eq_import_of_reads hreads hrest hends (by rw [endsPath, hc, Bool.true_or])
    rcases hkeyword with hafter | hne
    · exact Bool.false_ne_true ((exists_of_reads_goSingle hreads).1.symm.trans hafter)
    · exact hne heq

/-! ### What a single import reads -/

theorem exists_passes_quoted (hr : r.rest = '"' :: (path ++ '"' :: rest)) :
    ∃ s, Passes r ('"' :: (path ++ ['"'])) s ∧ s.rest = rest :=
  exists_passes (by rw [hr]; simp)

theorem exists_readsFirst_doubleQuoted (hpath : '"' ∉ path) (hne : path ≠ [])
    (hr : r.rest = '"' :: (path ++ '"' :: rest)) :
    ∃ r', ReadsFirst doubleQuoted r ('"' :: (path ++ ['"'])) r' ∧
      r'.captures = ⟨1, path ++ '"' :: rest, path.length⟩ :: r.captures := by
  obtain ⟨r₁, h₁, hr₁⟩ := exists_passes (show r.rest = ['"'] ++ (path ++ '"' :: rest) from hr)
  obtain ⟨r₂, hbody, hr₂, hgroup⟩ :
      ∃ r₂, ReadsFirst (group 1 (others1 (· == '"'))) r₁ path r₂ ∧ _ :=
    exists_readsFirst_groupMany hr₁ (fun c hc => bne_iff_ne.2 fun heq => hpath (heq ▸ hc))
      (List.length_pos_iff.2 hne) (stops_of_rest (r := .atStart ('"' :: rest)) rfl (by decide))
  obtain ⟨r₃, h₃, -⟩ := exists_passes (show r₂.rest = ['"'] ++ rest from hr₂)
  refine ⟨r₃, (ReadsFirst.text h₁).cat (hbody.cat (.text h₃)), ?_⟩
  rw [h₃.captures_eq, hgroup, h₁.captures_eq]

section Alias

variable {alias? : Option (List Char)}

/-- Behind the blanks a new name or the path begins. -/
theorem exists_cons_aliasText (halias : ∀ a ∈ alias?, IsWord a) (rest : List Char) :
    ∃ c more, aliasText alias? ++ '"' :: rest = c :: more ∧ isBlank c = false := by
  cases alias? with
  | none => exact ⟨'"', rest, rfl, by decide⟩
  | some name =>
    obtain ⟨hne, hname⟩ := halias name rfl
    obtain ⟨c, name, rfl⟩ := List.exists_cons_of_ne_nil hne
    refine ⟨c, _, rfl, isBlank_of_isDottedChar ?_⟩
    rw [isDottedChar, hname c (List.mem_cons_self ..), Bool.true_or]

/-- What may stand between the keyword and the path. -/
theorem exists_readsFirst_alias (halias : ∀ a ∈ alias?, IsWord a)
    (hr : r.rest = aliasText alias? ++ '"' :: rest) :
    ∃ s, ReadsFirst (maybe (seq [word, blanks1])) r (aliasText alias?) s ∧
      Passes r (aliasText alias?) s ∧ s.rest = '"' :: rest := by
  cases alias? with
  | none =>
    have hquote : r.rest = '"' :: rest := hr
    refine ⟨r, .maybeNot fun cs r' hreads => ?_, .stay, hquote⟩
    obtain ⟨r₁, ds, -, hword, -⟩ := exists_of_reads_cat hreads
    obtain ⟨hpasses, hmem, hsome⟩ := exists_of_reads_many hword
    obtain ⟨c, ds, rfl⟩ := List.exists_cons_of_ne_nil (List.ne_nil_of_length_pos hsome)
    obtain ⟨rfl, -⟩ := List.cons.inj (hquote.symm.trans hpasses.rest_eq)
    exact absurd (hmem '"' (List.mem_cons_self ..)) (by decide)
  | some name =>
    have hname := halias name rfl
    obtain ⟨r₁, h₁, hr₁⟩ := exists_passes (hr.trans (List.append_assoc ..))
    obtain ⟨r₂, h₂, hr₂⟩ := exists_passes hr₁
    have hword : ReadsFirst word r name r₁ :=
      .manyLongest h₁ hname.2 (List.length_pos_iff.2 hname.1) (stops_of_rest hr₁ (by decide))
    exact ⟨r₂, .altFirst (hword.cat (.oneBlank h₂ hr₂ (by decide))), h₁.trans h₂, hr₂⟩

/-- Behind the keyword an import without a dot is found. -/
theorem finds_goSingle_import (halias : ∀ a ∈ alias?, IsWord a) (hpath : '"' ∉ path)
    (hne : path ≠ []) (hafter : r.afterWord = false)
    (hr : r.rest = "import ".toList ++ (aliasText alias? ++ '"' :: (path ++ '"' :: rest)))
    (more : ∀ s : Reading, s.rest = rest → Finds goSingle s found) :
    Finds goSingle r (path :: found) := by
  have hkeyword : r.rest = "import".toList ++ ([' '] ++ _) := hr
  obtain ⟨c, ahead, hahead, hc⟩ := exists_cons_aliasText halias (path ++ '"' :: rest)
  obtain ⟨r₁, h₁, hr₁⟩ := exists_passes hkeyword
  obtain ⟨r₂, h₂, hr₂⟩ := exists_passes hr₁
  obtain ⟨r₃, hname, h₃, hr₃⟩ := exists_readsFirst_alias halias hr₂
  obtain ⟨r₄, hquoted, hcaptures⟩ := exists_readsFirst_doubleQuoted hpath hne hr₃
  have hedge : r.afterWord ≠ r.beforeWord := by
    rw [hafter, Reading.beforeWord, hkeyword]
    exact Bool.false_ne_true
  have hread : ReadsFirst goSingle r ([] ++ ("import".toList ++ ([' '] ++
      (aliasText alias? ++ ('"' :: (path ++ ['"'])))))) r₄ :=
    .cat (.wordEdge hedge) (.cat (.text h₁)
      (.cat (.oneBlank h₂ (hr₂.trans hahead) hc) (.cat hname hquoted)))
  obtain ⟨s, h₄, hs⟩ := exists_passes_quoted hr₃
  exact .hit hread (by simp) (h₁.trans (h₂.trans (h₃.trans h₄))) hcaptures (more s hs)

end Alias

/-! ### One line -/

theorem GoImport.endsPath_path (i : GoImport) : ∀ d ∈ i.path, endsPath d = false :=
  fun d hd => endsPath_of_isPathChar (i.isPath d hd)

theorem GoImport.quote_notMem_path (i : GoImport) : '"' ∉ i.path := i.notMem_path (by decide)

/-- On a path in quotes nothing is found. -/
theorem GoImport.finds_path (i : GoImport) (hr : r.rest = '"' :: (i.path ++ '"' :: rest))
    (more : ∀ s : Reading, s.rest = rest → Finds goSingle s found) : Finds goSingle r found := by
  obtain ⟨s, hpasses, hs⟩ := exists_passes_quoted hr
  exact .skip hpasses (misses_goSingle_inQuotes i.endsPath_path _) (more s hs)

theorem startsWith_goSingle : StartsWith 'i' goSingle := by
  intro r cs r' hreads
  obtain ⟨-, b, c, more, -, -, -, hrest⟩ := exists_of_reads_goSingle hreads
  rw [hrest]
  rfl

/-- A keyword is passed over if a character behind it begins no name and no path. -/
theorem finds_goSingle_overKeyword (hr : r.rest = "import ".toList ++ c :: rest)
    (hc : isBlank c = false) (hword : isWordChar c = false) (hquote : c ≠ '"')
    (more : ∀ s : Reading, s.rest = c :: rest → Finds goSingle s found) :
    Finds goSingle r found := by
  have hfails : Fails goSingle r := by
    intro cs r' hreads
    obtain ⟨-, b, d, ahead, hb, hne, hd, hrest⟩ := exists_of_reads_goSingle hreads
    have hwhole : "import".toList ++ ([' '] ++ c :: rest) = "import".toList ++ (b ++ d :: ahead) :=
      hr.symm.trans hrest
    have hbehind := List.append_cancel_left hwhole
    have hd' : isBlank d = false := by
      rcases hd with rfl | hd
      · decide
      · exact Bool.eq_false_iff.2 fun hblank =>
          Bool.false_ne_true ((isWordChar_of_isBlank hblank).symm.trans hd)
    obtain ⟨-, rfl, -⟩ := eq_of_first (fun e => !isBlank e) (List.forall_mem_singleton.2 rfl)
      (fun e he => by rw [hb e he]; rfl) (by rw [hc]; rfl) (by rw [hd']; rfl) hbehind
    rcases hd with hd | hd
    · exact hquote hd
    · exact Bool.false_ne_true (hword.symm.trans hd)
  have hahead : r.rest = 'i' :: ("mport ".toList ++ c :: rest) := hr
  exact .past hahead hfails
    (.skipOthers (u := "mport ".toList) startsWith_goSingle (by decide) rfl more)

theorem GoImport.isWord_of_not_isDot (i : GoImport) (h : ¬ i.isDot = true) :
    ∀ a ∈ i.alias?, IsWord a := by
  intro a ha
  refine (i.isAlias a ha).resolve_left fun hdot => h ?_
  rw [GoImport.isDot, Option.mem_def.1 ha, hdot]
  rfl

/-- A line with a keyword is listed unless it takes names over. -/
theorem GoImport.finds_importLine (i : GoImport) (hafter : r.afterWord = false)
    (hr : r.rest = i.line "import ".toList ++ rest)
    (more : ∀ s : Reading, s.rest = rest → Finds goSingle s found) :
    Finds goSingle r ((if !i.isDot then [i.path] else []) ++ found) := by
  have hrest : r.rest =
      "import ".toList ++ (aliasText i.alias? ++ '"' :: (i.path ++ '"' :: rest)) := by
    simpa [GoImport.line] using hr
  by_cases hdot : i.isDot
  · have halias : i.alias? = some ['.'] := eq_of_beq hdot
    rw [halias] at hrest
    rw [hdot]
    refine finds_goSingle_overKeyword (c := '.') hrest (by decide) (by decide) (by decide)
      fun s hs => ?_
    exact .skipOthers (u := ". ".toList) startsWith_goSingle (by decide) hs
      fun s₁ hs₁ => i.finds_path hs₁ more
  · rw [Bool.eq_false_iff.2 hdot]
    exact finds_goSingle_import (i.isWord_of_not_isDot hdot) i.quote_notMem_path i.ne_nil hafter
      hrest more

/-- A line in a group is listed as a single import if its new name is the keyword. -/
theorem GoImport.finds_groupLine (i : GoImport) (hafter : r.afterWord = false)
    (hr : r.rest = i.line [] ++ rest)
    (more : ∀ s : Reading, s.rest = rest → Finds goSingle s found) :
    Finds goSingle r ((if i.isKeyword then [i.path] else []) ++ found) := by
  have hrest : r.rest = aliasText i.alias? ++ '"' :: (i.path ++ '"' :: rest) := by
    simpa [GoImport.line] using hr
  by_cases hkeyword : i.isKeyword
  · have halias : i.alias? = some "import".toList := eq_of_beq hkeyword
    rw [halias] at hrest
    rw [if_pos hkeyword]
    have halias : ∀ a ∈ (none : Option (List Char)), IsWord a := by simp
    exact finds_goSingle_import halias i.quote_notMem_path i.ne_nil hafter hrest more
  · rw [if_neg hkeyword]
    have hisAlias := i.isAlias
    cases halias : i.alias? with
    | none =>
      rw [halias] at hrest
      exact i.finds_path hrest more
    | some name =>
      rw [halias] at hrest hisAlias
      have hname : r.rest = name ++ ([' '] ++ '"' :: (i.path ++ '"' :: rest)) := by
        simpa [aliasText] using hrest
      rcases hisAlias name rfl with rfl | hword
      · exact .skipOthers (u := ". ".toList) startsWith_goSingle (by decide) hname
          fun s hs => i.finds_path hs more
      · obtain ⟨s, hpasses, hs⟩ := exists_passes hname
        refine finds_goSingle_overWord hpasses hword.2 hs (by decide) (.inr ?_)
          (.skipOthers startsWith_goSingle (by decide) hs fun s₁ hs₁ => i.finds_path hs₁ more)
        rintro rfl
        exact hkeyword (by rw [GoImport.isKeyword, halias]; rfl)

/-! ### Both forms -/

theorem afterWord_of_blank {us : List Char} (passes : Passes r us s) (hus : Blank us)
    (hne : us ≠ []) : s.afterWord = false := by
  obtain ⟨front, c, rfl⟩ := (List.eq_nil_or_concat' us).resolve_left hne
  rw [passes.afterWord_eq]
  exact isWordChar_of_isBlank (hus c (by simp))

theorem map_path_filter_cons (keep : GoImport → Bool) (i : GoImport) (is : List GoImport) :
    ((i :: is).filter keep).map GoImport.path =
      (if keep i then [i.path] else []) ++ (is.filter keep).map GoImport.path := by
  rw [List.filter_cons]
  split <;> rfl

theorem finds_furtherImports (hending : Blank ending)
    (hr : r.rest = furtherLines "import ".toList is ++ ending) :
    Finds goSingle r ((is.filter fun i => !i.isDot).map GoImport.path) := by
  induction is generalizing r with
  | nil =>
    have hrest : r.rest = ending := hr
    exact .nil startsWith_goSingle (hrest ▸ hending.notMem (by decide))
  | cons i is ih =>
    rw [furtherLines_cons] at hr
    obtain ⟨s, hpasses, hs⟩ := exists_passes (show r.rest = ['\n'] ++ _ from hr)
    have hafter := afterWord_of_blank hpasses (by decide) (by simp)
    rw [map_path_filter_cons]
    exact .skip hpasses (startsWith_goSingle.misses (by decide))
      (i.finds_importLine hafter hs fun _ => ih)

theorem finds_groupImports (hindent : Blank indent) (hrest : 'i' ∉ rest)
    (hr : r.rest = furtherLines indent is ++ rest) :
    Finds goSingle r ((is.filter GoImport.isKeyword).map GoImport.path) := by
  induction is generalizing r with
  | nil =>
    have heq : r.rest = rest := hr
    exact .nil startsWith_goSingle (heq ▸ hrest)
  | cons i is ih =>
    rw [furtherLines_cons] at hr
    have hlead : r.rest = ('\n' :: indent) ++ (i.line [] ++ (furtherLines indent is ++ rest)) := by
      simpa [GoImport.line] using hr
    have hblank : Blank ('\n' :: indent) := List.forall_mem_cons.2 ⟨by decide, hindent⟩
    obtain ⟨s, hpasses, hs⟩ := exists_passes hlead
    have hafter := afterWord_of_blank hpasses hblank (by simp)
    rw [map_path_filter_cons]
    exact .skip hpasses (startsWith_goSingle.misses (hblank.notMem (by decide)))
      (i.finds_groupLine hafter hs fun _ => ih)

theorem startsWith_doubleQuoted : StartsWith '"' doubleQuoted := .cat (.text '"' [])

/-- In a group every path is found. -/
theorem finds_doubleQuoted (hindent : Blank indent) (hrest : '"' ∉ rest)
    (hr : r.rest = furtherLines indent is ++ rest) :
    Finds doubleQuoted r (is.map GoImport.path) := by
  induction is generalizing r with
  | nil =>
    have heq : r.rest = rest := hr
    exact .nil startsWith_doubleQuoted (heq ▸ hrest)
  | cons i is ih =>
    rw [furtherLines_cons] at hr
    have hlead : r.rest = ('\n' :: (indent ++ aliasText i.alias?)) ++
        '"' :: (i.path ++ '"' :: (furtherLines indent is ++ rest)) := by
      simpa [GoImport.line] using hr
    have hquote : '"' ∉ '\n' :: (indent ++ aliasText i.alias?) := by
      simp only [List.mem_cons, List.mem_append, not_or]
      exact ⟨by decide, hindent.notMem (by decide),
        i.notMem_aliasText (by decide) (by decide) (by decide)⟩
    refine .skipOthers startsWith_doubleQuoted hquote hlead fun s hs => ?_
    obtain ⟨r', hread, hcaptures⟩ :=
      exists_readsFirst_doubleQuoted i.quote_notMem_path i.ne_nil hs
    obtain ⟨s₁, hpasses, hs₁⟩ := exists_passes_quoted hs
    exact .hit hread (List.cons_ne_nil _ _) hpasses hcaptures (ih hs₁)

theorem firstGroups_goSingle_importLines (hending : Blank ending) :
    firstGroups goSingle (importLines is ++ ending) =
      (is.filter fun i => !i.isDot).map GoImport.path := by
  refine Finds.findAll_eq ?_
  cases is with
  | nil => exact .nil startsWith_goSingle (hending.notMem (by decide))
  | cons i is =>
    have hstart : (Reading.atStart (importLines (i :: is) ++ ending)).rest =
        i.line "import ".toList ++ (furtherLines "import ".toList is ++ ending) := by
      rw [importLines_cons, List.append_assoc]
      rfl
    rw [map_path_filter_cons]
    exact i.finds_importLine rfl hstart fun _ => finds_furtherImports hending

theorem firstGroups_goSingle_importGroup (hindent : Blank indent) (hending : Blank ending) :
    firstGroups goSingle (importGroup indent is ++ ending) =
      (is.filter GoImport.isKeyword).map GoImport.path := by
  refine Finds.findAll_eq ?_
  have hclose : 'i' ∉ "\n)".toList ++ ending := by
    rw [List.mem_append, not_or]
    exact ⟨by decide, hending.notMem (by decide)⟩
  have hstart : (Reading.atStart (importGroup indent is ++ ending)).rest =
      "import ".toList ++ '(' :: (furtherLines indent is ++ ("\n)".toList ++ ending)) := by
    rw [importGroup_eq, Reading.atStart]
    simp
  exact finds_goSingle_overKeyword hstart (by decide) (by decide) (by decide) fun s hs =>
    .skipOthers (u := ['(']) startsWith_goSingle (by decide) hs
      fun s₁ hs₁ => finds_groupImports hindent hclose hs₁

theorem fails_goGroup (h : '(' ∉ r.rest) : Fails goGroup r :=
  .of_demands (show goGroup.demands (· == '(') = true by decide)
    fun _ hc => beq_eq_false_iff_ne.2 fun heq => h (heq ▸ hc)

/-- Imports with a keyword each are no group. -/
theorem firstGroups_goGroup_importLines (hending : Blank ending) :
    firstGroups goGroup (importLines is ++ ending) = [] := by
  have hparen : '(' ∉ importLines is ++ ending := by
    rw [List.mem_append, not_or]
    refine ⟨fun hmem => ?_, hending.notMem (by decide)⟩
    rcases mem_join hmem with hmem | ⟨line, hline, hmem⟩
    · exact absurd hmem (by decide)
    · obtain ⟨i, -, rfl⟩ := List.mem_map.1 hline
      exact i.notMem_line (by decide) (by decide) (by decide) (by decide) hmem
  rw [firstGroups, findAll_eq_nil, List.map_nil]
  intro us s hpasses
  have hrest : importLines is ++ ending = us ++ s.rest := hpasses.rest_eq
  exact fails_goGroup fun hmem => hparen (hrest ▸ List.mem_append_right us hmem)

/-- A group reaches to its closing parenthesis. -/
theorem firstGroups_goGroup_importGroup (hindent : Blank indent) (hending : Blank ending) :
    firstGroups goGroup (importGroup indent is ++ ending) = [furtherLines indent is ++ ['\n']] := by
  have hclose : ')' ∉ furtherLines indent is ++ ['\n'] := by
    rw [List.mem_append, not_or]
    exact ⟨furtherLines_notMem (by decide) (by decide) (by decide)
      (hindent.notMem (by decide)), by decide⟩
  have hstart : (Reading.atStart (importGroup indent is ++ ending)).rest = "import".toList ++
      ([' '] ++ (['('] ++ ((furtherLines indent is ++ ['\n']) ++ ([')'] ++ ending)))) := by
    rw [importGroup_eq, Reading.atStart]
    simp
  generalize furtherLines indent is ++ ['\n'] = inside at hclose hstart ⊢
  obtain ⟨r₁, h₁, hr₁⟩ := exists_passes hstart
  obtain ⟨r₂, h₂, hr₂⟩ := exists_passes hr₁
  obtain ⟨r₃, h₃, hr₃⟩ := exists_passes hr₂
  obtain ⟨r₄, h₄, hr₄⟩ := exists_passes hr₃
  obtain ⟨r₅, h₅, hr₅⟩ := exists_passes hr₄
  obtain ⟨r₆, h₆, -⟩ := exists_passes (r := r₃.remember 1 r₄) hr₄
  have hspace : ReadsFirst blanks r₁ [' '] r₂ :=
    .someBlanks h₂ (List.forall_mem_singleton.2 rfl) hr₂ (by decide)
  have hinside : ReadsFirst (seq [group 1 (many false 0 fun _ => true), lit ")"]) r₃
      (inside ++ [')']) r₆ :=
    .groupMissing h₄ (fun _ _ => rfl) ((StartsWith.text ')' []).misses hclose) (.text h₆)
  have hedge : (Reading.atStart (importGroup indent is ++ ending)).afterWord ≠
      (Reading.atStart (importGroup indent is ++ ending)).beforeWord := by
    rw [Reading.beforeWord, hstart]
    exact Bool.false_ne_true
  have hread : ReadsFirst goGroup (.atStart (importGroup indent is ++ ending)) ([] ++
      ("import".toList ++ ([' '] ++ (['('] ++ (inside ++ [')']))))) r₆ :=
    .cat (.wordEdge hedge) (.cat (.text h₁) (.cat hspace (.cat (.text h₃) hinside)))
  have hpasses := h₁.trans (h₂.trans (h₃.trans (h₄.trans h₅)))
  have hcaptures : r₆.captures = ⟨1, inside ++ r₄.rest, inside.length⟩ :: r₃.captures := by
    rw [h₆.captures_eq, h₄.captures_remember]
  have hlater : ∀ us s, Passes r₅ us s → Fails goGroup s := fun us s hus =>
    have hrest : ending = us ++ s.rest := hr₅.symm.trans hus.rest_eq
    fails_goGroup fun hmem =>
      hending.notMem (by decide) (hrest ▸ List.mem_append_right us hmem)
  exact Finds.findAll_eq (.hit hread (by simp) hpasses hcaptures ⟨[], _, .none hlater, rfl⟩)

/-! ### What is listed -/

theorem filter_paths (is : List GoImport) :
    (is.map GoImport.path).filter (· != []) = is.map GoImport.path :=
  List.filter_eq_self.2 (List.forall_mem_map.2 fun i _ => bne_iff_ne.2 i.ne_nil)

/-- Imports with a keyword each are listed unless they take names over. -/
theorem ofGo_importLines (hending : Blank ending) :
    ofGo (importLines is ++ ending) =
      ((is.filter fun i => !i.isDot).map GoImport.path).eraseDups := by
  rw [ofGo]
  simp only [dropSlashed_importLines hending, firstGroups_goSingle_importLines hending,
    firstGroups_goGroup_importLines hending, List.flatMap_nil, List.append_nil, distinct,
    filter_paths]

/-- Imports in a group are all listed, after those whose new name is the keyword. -/
theorem ofGo_importGroup (hindent : Blank indent) (hending : Blank ending) :
    ofGo (importGroup indent is ++ ending) =
      ((is.filter GoImport.isKeyword ++ is).map GoImport.path).eraseDups := by
  have hinside : firstGroups doubleQuoted (furtherLines indent is ++ ['\n']) =
      is.map GoImport.path := Finds.findAll_eq (finds_doubleQuoted hindent (by decide) rfl)
  rw [ofGo]
  simp only [dropSlashed_importGroup hindent hending,
    firstGroups_goSingle_importGroup hindent hending,
    firstGroups_goGroup_importGroup hindent hending, List.flatMap_cons, List.flatMap_nil,
    List.append_nil, hinside, distinct, ← List.map_append, filter_paths]

/-- What the two forms list. All paths are listed, each at its first place, from single imports if
    none takes names over, and from a group if no new name is the keyword. -/
theorem ofGo_forms (hindent : Blank indent) (hending : Blank ending) (is : List GoImport) :
    (ofGo (importLines is ++ ending) =
        ((is.filter fun i => !i.isDot).map GoImport.path).eraseDups ∧
      ofGo (importGroup indent is ++ ending) =
        ((is.filter GoImport.isKeyword ++ is).map GoImport.path).eraseDups) ∧
    ((∀ i ∈ is, i.isDot = false) →
      ofGo (importLines is ++ ending) = (is.map GoImport.path).eraseDups) ∧
    ((∀ i ∈ is, i.isKeyword = false) →
      ofGo (importGroup indent is ++ ending) = (is.map GoImport.path).eraseDups) := by
  refine ⟨⟨ofGo_importLines hending, ofGo_importGroup hindent hending⟩, fun hdot => ?_,
    fun hkeyword => ?_⟩
  · have hall : (is.filter fun i => !i.isDot) = is :=
      List.filter_eq_self.2 fun i hi => by rw [hdot i hi]; rfl
    rw [ofGo_importLines hending, hall]
  · have hnone : is.filter GoImport.isKeyword = [] :=
      List.filter_eq_nil_iff.2 fun i hi => by rw [hkeyword i hi]; exact Bool.false_ne_true
    rw [ofGo_importGroup hindent hending, hnone, List.nil_append]

/-- A path that comes twice and a package whose names are taken over. -/
theorem ofGo_forms_repeated :
    ofGo "import \"fmt\"\nimport . \"math/big\"\nimport f \"fmt\"\n".toList = ["fmt".toList] ∧
      ofGo "import (\n\t\"fmt\"\n\t. \"math/big\"\n\tf \"fmt\"\n)\n".toList =
        ["fmt".toList, "math/big".toList] := by
  let is : List GoImport :=
    [⟨none, "fmt".toList, by simp, by decide, by decide +kernel, by decide +kernel⟩,
      ⟨some ['.'], "math/big".toList, by decide, by decide, by decide +kernel,
        by decide +kernel⟩,
      ⟨some ['f'], "fmt".toList, by decide +kernel, by decide, by decide +kernel,
        by decide +kernel⟩]
  have htab : Blank ['\t'] := by decide
  have hfeed : Blank ['\n'] := by decide
  have hforms := ofGo_forms htab hfeed is
  have hkeyword : ∀ i ∈ is, i.isKeyword = false := by decide
  exact ⟨hforms.1.1.trans (by decide), (hforms.2.2 hkeyword).trans (by decide)⟩

/-- A package whose names are taken over is left out. -/
theorem ofGo_importLines_ne :
    let is : List GoImport :=
      [⟨some ['.'], "fmt".toList, by decide +kernel, by decide +kernel, by decide +kernel,
        by decide +kernel⟩]
    importLines is = "import . \"fmt\"".toList ∧
      ofGo (importLines is) ≠ (is.map GoImport.path).eraseDups := by
  decide +kernel

end CodeSurvey.Import
