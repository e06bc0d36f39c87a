import CodeSurvey.Proofs.Import.Written
import CodeSurvey.Proofs.Pattern.First
import CodeSurvey.Proofs.Text.Pieces
import Mathlib.Data.List.TakeWhile

/-!
Imports of several modules in one line, each of which may be renamed. Main statement: such a line is
read up to the first module that is renamed, so all of its modules are listed if and only if those
behind have been named before.
-/

namespace CodeSurvey.Import

open Pattern Text

/-- A name of a module, with its packages in front. -/
def IsDottedName (name : List Char) : Prop := name ≠ [] ∧ ∀ c ∈ name, isDottedChar c = true

/-- A name without dots. -/
def IsWord (name : List Char) : Prop := name ≠ [] ∧ ∀ c ∈ name, isWordChar c = true

instance (name : List Char) : Decidable (IsDottedName name) :=
  @instDecidableAnd _ _ _ (List.decidableBAll _ name)

instance (name : List Char) : Decidable (IsWord name) :=
  @instDecidableAnd _ _ _ (List.decidableBAll _ name)

/-- A module in an import and the name that it gets there, if any. -/
structure ImportedModule where
  name : List Char
  alias? : Option (List Char)
  isDotted : IsDottedName name
  isWord : ∀ a ∈ alias?, IsWord a

/-- The new name as it stands behind a module. -/
def asClause (alias? : Option (List Char)) : List Char := alias?.elim [] (" as ".toList ++ ·)

def ImportedModule.text (m : ImportedModule) : List Char := m.name ++ asClause m.alias?

/-- An import of modules. -/
def moduleImport (ms : List ImportedModule) : List Char :=
  "import ".toList ++ join ", ".toList (ms.map ImportedModule.text)

/-- The modules up to the first that is renamed. -/
def upToRenamed : List ImportedModule → List ImportedModule
  | [] => []
  | m :: more => m :: if m.alias?.isSome then [] else upToRenamed more

variable {m : ImportedModule} {ms more : List ImportedModule} {r s : Reading}
  {c : Char} {alias? : Option (List Char)} {name line ending rest us : List Char}
  {names : List (List Char)} {q : Pattern}

/-! ### Characters of an import -/

/-- The code points of the blank characters. -/
def blankCodes : List Nat :=
  [9, 10, 11, 12, 13, 28, 29, 30, 31, 32, 0x85, 0xA0, 0x1680, 0x2000, 0x2001, 0x2002, 0x2003, 0x2004,
    0x2005, 0x2006, 0x2007, 0x2008, 0x2009, 0x200A, 0x2028, 0x2029, 0x202F, 0x205F, 0x3000]

theorem toNat_mem_blankCodes (h : isBlank c = true) : c.toNat ∈ blankCodes := by
  simp only [blankCodes, List.mem_cons, List.not_mem_nil, or_false]
  unfold isBlank at h
  simp only at h
  split at h
  all_goals
    simp only [Bool.or_eq_true, Bool.and_eq_true, beq_iff_eq, decide_eq_true_eq] at h
    omega

theorem isDottedChar_of_isBlank (h : isBlank c = true) : isDottedChar c = false := by
  -- the blanks are few, the letters many: each blank is looked up among the letters
  have hall : ∀ n ∈ blankCodes, isDottedChar (Char.ofNat n) = false := by decide +kernel
  rw [← Char.ofNat_toNat c]
  exact hall _ (toNat_mem_blankCodes h)

theorem isBlank_of_isDottedChar (h : isDottedChar c = true) : isBlank c = false := by
  by_contra hblank
  rw [isDottedChar_of_isBlank (Bool.not_eq_false _ ▸ hblank)] at h
  exact Bool.false_ne_true h

theorem isWordChar_of_isBlank (h : isBlank c = true) : isWordChar c = false :=
  (Bool.or_eq_false_iff.1 (isDottedChar_of_isBlank h)).1

theorem isBlank_of_isWordChar (h : isWordChar c = true) : isBlank c = false :=
  isBlank_of_isDottedChar (by rw [isDottedChar, h, Bool.true_or])

/-- A word begins with a character that is not blank. -/
theorem IsWord.exists_first (h : IsWord name) : ∃ c more, name = c :: more ∧ isBlank c = false := by
  obtain ⟨c, more, rfl⟩ := List.exists_cons_of_ne_nil h.1
  exact ⟨c, more, rfl, isBlank_of_isWordChar (h.2 c List.mem_cons_self)⟩

theorem IsDottedName.trim_eq (h : IsDottedName name) : trim name = name :=
  trim_eq_self_iff.2 ⟨fun c hc => isBlank_of_isDottedChar (h.2 c (List.mem_of_head? hc)),
    fun c hc => isBlank_of_isDottedChar (h.2 c (List.mem_of_getLast? hc))⟩

theorem IsDottedName.notMem (h : IsDottedName name) (hc : isDottedChar c = false) : c ∉ name :=
  fun hmem => Bool.false_ne_true (hc.symm.trans (h.2 c hmem))

/-- A character of a dotted name, or a space or comma between names. -/
def isImportChar (c : Char) : Bool := isDottedChar c || c == ' ' || c == ','

theorem isImportChar_of_isDottedChar (h : isDottedChar c = true) : isImportChar c = true := by
  rw [isImportChar, h, Bool.true_or, Bool.true_or]

theorem isImportChar_of_mem_text (h : c ∈ m.text) : isImportChar c = true := by
  rcases List.mem_append.1 h with h | h
  · exact isImportChar_of_isDottedChar (m.isDotted.2 c h)
  · have hword := m.isWord
    cases halias : m.alias? with
    | none =>
      rw [halias] at h
      exact absurd h List.not_mem_nil
    | some a =>
      rw [halias] at h hword
      rcases List.mem_append.1 h with h | h
      · have has : " as ".toList.all isImportChar = true := by decide
        exact List.all_eq_true.1 has c h
      · exact isImportChar_of_isDottedChar (by rw [isDottedChar, (hword a rfl).2 c h, Bool.true_or])

/-- An import holds nothing but dotted names, spaces and commas. -/
theorem isImportChar_of_mem (h : c ∈ moduleImport ms) : isImportChar c = true := by
  rcases List.mem_append.1 h with h | h
  · have himport : "import ".toList.all isImportChar = true := by decide
    exact List.all_eq_true.1 himport c h
  · rcases mem_join h with h | ⟨p, hp, hc⟩
    · have hcomma : ", ".toList.all isImportChar = true := by decide
      exact List.all_eq_true.1 hcomma c h
    · obtain ⟨m, -, rfl⟩ := List.mem_map.1 hp
      exact isImportChar_of_mem_text hc

theorem notMem_moduleImport (hc : isImportChar c = false) : c ∉ moduleImport ms := fun h =>
  Bool.false_ne_true (hc.symm.trans (isImportChar_of_mem h))

/-- There is no comment to drop from an import. -/
theorem dropKind_hashLine (hending : Blank ending) :
    Comment.dropKind Comment.hashLine (moduleImport ms ++ ending) = moduleImport ms ++ ending := by
  have hdemands : Comment.hashLine.demands (· == '#') = true := by decide
  have hhash : ∀ c ∈ moduleImport ms ++ ending, (c == '#') = false := by
    intro c hc
    rw [beq_eq_false_iff_ne]
    rintro rfl
    rcases List.mem_append.1 hc with hc | hc
    · exact notMem_moduleImport (by decide) hc
    · exact absurd (hending '#' hc) (by decide)
  have hfails : ∀ us s, Passes (.atStart (moduleImport ms ++ ending)) us s →
      Fails Comment.hashLine s := by
    intro us s hpasses
    have hrest : moduleImport ms ++ ending = us ++ s.rest := hpasses.rest_eq
    exact .of_demands hdemands fun c hc => hhash c (hrest ▸ List.mem_append_right us hc)
  exact (Scans.none hfails).replace_eq

/-! ### The list of modules -/

/-- What stands behind the name of a module that others follow. -/
def behind (alias? : Option (List Char)) (more : List ImportedModule) : List Char :=
  asClause alias? ++ more.flatMap fun n => ", ".toList ++ n.text

theorem moduleImport_cons (m : ImportedModule) (more : List ImportedModule) :
    moduleImport (m :: more) = "import ".toList ++ (m.name ++ behind m.alias? more) := by
  unfold moduleImport behind
  rw [List.map_cons, join_cons_eq_flatMap, List.flatMap_map, ImportedModule.text,
    List.append_assoc]

theorem behind_cons (m : ImportedModule) (more : List ImportedModule) :
    behind none (m :: more) = ", ".toList ++ (m.name ++ behind m.alias? more) := by
  simp only [behind, asClause, Option.elim_none, List.nil_append, List.flatMap_cons,
    ImportedModule.text, List.append_assoc]

/-- A further module of a list. -/
def nameItem : Pattern := seq [blanks, lit ",", blanks, many true 1 isDottedChar]

theorem isDottedChar_behind (hending : Blank ending) :
    ∀ c ∈ (behind alias? more ++ ending).head?, isDottedChar c = false := by
  intro c hc
  cases alias? with
  | some a =>
    have hspace : (behind (some a) more ++ ending).head? = some ' ' := rfl
    obtain rfl := Option.some.inj (hspace.symm.trans hc)
    decide
  | none =>
    cases more with
    | nil =>
      have hmem : c ∈ ending := List.mem_of_head? hc
      exact isDottedChar_of_isBlank (hending c hmem)
    | cons n more =>
      have hcomma : (behind none (n :: more) ++ ending).head? = some ',' := rfl
      obtain rfl := Option.some.inj (hcomma.symm.trans hc)
      decide

theorem exists_readsFirst_name (hname : IsDottedName name) (hr : r.rest = name ++ rest)
    (hrest : ∀ c ∈ rest.head?, isDottedChar c = false) :
    ∃ r', ReadsFirst (many true 1 isDottedChar) r name r' ∧ r'.rest = rest := by
  obtain ⟨r', hpasses, hr'⟩ := exists_passes hr
  exact ⟨r', .manyLongest hpasses hname.2 (List.length_pos_iff.2 hname.1) (hr'.symm ▸ hrest), hr'⟩

theorem IsDottedName.exists_cons (h : IsDottedName name) :
    ∃ c more, name = c :: more ∧ isBlank c = false := by
  obtain ⟨c, more, rfl⟩ := List.exists_cons_of_ne_nil h.1
  exact ⟨c, more, rfl, isBlank_of_isDottedChar (h.2 c (List.mem_cons_self ..))⟩

theorem exists_readsFirst_nameItem (hname : IsDottedName name)
    (hr : r.rest = ", ".toList ++ (name ++ rest))
    (hrest : ∀ c ∈ rest.head?, isDottedChar c = false) :
    ∃ r', ReadsFirst nameItem r (", ".toList ++ name) r' ∧ r'.rest = rest := by
  have hcomma : r.rest = [','] ++ ([' '] ++ (name ++ rest)) := hr
  obtain ⟨r₁, hpasses₁, hr₁⟩ := exists_passes hcomma
  obtain ⟨r₂, hpasses₂, hr₂⟩ := exists_passes hr₁
  obtain ⟨r₃, hread, hr₃⟩ := exists_readsFirst_name hname hr₂ hrest
  obtain ⟨c, more, rfl, hc⟩ := hname.exists_cons
  have hblank : ReadsFirst blanks r₁ [' '] r₂ :=
    .someBlanks hpasses₂ (List.forall_mem_singleton.2 rfl) hr₂ hc
  have hitem : ReadsFirst nameItem r ([] ++ ([','] ++ ([' '] ++ (c :: more)))) r₃ :=
    .cat (.noBlanks hcomma (by decide)) (.cat (.text hpasses₁) (.cat hblank hread))
  exact ⟨r₃, hitem, hr₃⟩

/-- At the new name of a module, and behind the last one, the list is over. -/
theorem fails_nameItem (hending : Blank ending) (hr : r.rest = behind alias? more ++ ending)
    (hover : alias?.isSome ∨ more = []) : Fails nameItem r := by
  refine Fails.blanksText ?_ (by decide)
  rw [hr]
  rintro ⟨t, ht⟩
  rcases hover with hsome | rfl
  · obtain ⟨a, rfl⟩ := Option.isSome_iff_exists.1 hsome
    exact absurd (List.cons.inj ht).1 (by decide)
  · cases alias? with
    | some a => exact absurd (List.cons.inj ht).1 (by decide)
    | none =>
      have hnil : (behind none [] ++ ending).dropWhile isBlank = [] :=
        List.dropWhile_eq_nil_iff.2 hending
      rw [hnil] at ht
      exact absurd ht (by simp)

/-- Behind a module the list goes on up to the first module that is renamed. -/
theorem exists_repeats_nameItem (hending : Blank ending)
    (hr : r.rest = behind alias? more ++ ending) :
    ∃ r', Repeats nameItem r
      ((if alias?.isSome then [] else upToRenamed more).flatMap fun n => ", ".toList ++ n.name)
      r' := by
  induction more generalizing alias? r with
  | nil => exact ⟨r, by simpa [upToRenamed] using .done (fails_nameItem hending hr (.inr rfl))⟩
  | cons m more ih =>
    cases alias? with
    | some a => exact ⟨r, .done (fails_nameItem hending hr (.inl rfl))⟩
    | none =>
      rw [behind_cons, List.append_assoc, List.append_assoc] at hr
      obtain ⟨r₁, hfirst, hr₁⟩ :=
        exists_readsFirst_nameItem m.isDotted hr (isDottedChar_behind hending)
      obtain ⟨r', hmore⟩ := ih hr₁
      exact ⟨r', .more hfirst (by simp) hmore⟩

/-- What the scan reads from an import: the modules up to the first that is renamed. -/
theorem exists_readsFirst_pythonImport (hending : Blank ending) (m : ImportedModule)
    (more : List ImportedModule) :
    let listed := join ", ".toList ((upToRenamed (m :: more)).map ImportedModule.name)
    ∃ s r', Passes (.atStart (moduleImport (m :: more) ++ ending)) ("import ".toList ++ listed) s ∧
      ReadsFirst pythonImport (.atStart (moduleImport (m :: more) ++ ending))
        ("import ".toList ++ listed) r' ∧
      r'.captures = [⟨1, listed ++ s.rest, listed.length⟩] := by
  intro listed
  have hlisted : listed = m.name ++ (if m.alias?.isSome then [] else upToRenamed more).flatMap
      fun n => ", ".toList ++ n.name := by
    simp only [listed, upToRenamed, List.map_cons, join_cons_eq_flatMap, List.flatMap_map]
  have hstart : (Reading.atStart (moduleImport (m :: more) ++ ending)).rest =
      "import".toList ++ ([' '] ++ (m.name ++ (behind m.alias? more ++ ending))) := by
    show moduleImport (m :: more) ++ ending = _
    rw [moduleImport_cons, List.append_assoc, List.append_assoc]
    rfl
  obtain ⟨r₁, hpasses₁, hr₁⟩ := exists_passes hstart
  obtain ⟨r₂, hpasses₂, hr₂⟩ := exists_passes hr₁
  obtain ⟨r₃, hname, hr₃⟩ :=
    exists_readsFirst_name m.isDotted hr₂ (isDottedChar_behind hending)
  obtain ⟨s, hitems⟩ := exists_repeats_nameItem hending hr₃
  have hnames : ReadsFirst (cat (many true 1 isDottedChar) (star nameItem)) r₂ listed s :=
    hlisted ▸ .cat hname (.star hitems)
  have hpasses : Passes r₂ listed s := hnames.reads.passes (by decide)
  obtain ⟨c, rest, hc, hblank⟩ := m.isDotted.exists_cons
  have hspace : ReadsFirst blanks1 r₁ [' '] r₂ :=
    .oneBlank hpasses₂ (hr₂.trans (by rw [hc, List.cons_append])) hblank
  have hall := (hpasses₁.trans hpasses₂).trans hpasses
  have hread : ReadsFirst pythonImport (.atStart (moduleImport (m :: more) ++ ending))
      ([] ++ ([] ++ ("import".toList ++ ([' '] ++ listed)))) _ :=
    .cat (.lineStart rfl) (.cat (.noBlanks hstart (by decide))
      (.cat (.text hpasses₁) (.cat hspace (.group hnames))))
  refine ⟨s, _, hall, hread, ?_⟩
  rw [hpasses.captures_remember, hpasses₂.captures_eq, hpasses₁.captures_eq]
  rfl

/-! ### The scan of a line -/

/-- Past the start of a line, and on the blank lines behind it, nothing begins that takes more than
    blanks. -/
theorem fails_past_start (hline : '\n' ∉ line) (hending : Blank ending)
    (hq : q.demands (fun c => !isBlank c) = true) (hne : us ≠ [])
    (hpasses : Passes (.atStart (line ++ ending)) us s) : Fails (cat lineStart q) s := by
  obtain ⟨front, c, rfl⟩ := (List.eq_nil_or_concat' us).resolve_left hne
  by_cases hc : c = '\n'
  · -- there is no line feed in the line, so only the ending is left
    subst hc
    have hrest : line ++ ending = (front ++ ['\n']) ++ s.rest := hpasses.rest_eq
    have hblank : ∀ c ∈ s.rest, isBlank c = true := by
      rcases List.append_eq_append_iff.1 hrest with ⟨t, -, ht⟩ | ⟨t, ht, -⟩
      · exact fun c hc => hending c (ht ▸ List.mem_append_right t hc)
      · exact absurd (ht ▸ by simp) hline
    have hdemands : (cat lineStart q).demands (fun c => !isBlank c) = true := by
      rw [demands, hq, Bool.or_true]
    exact .of_demands hdemands fun c hc => by rw [hblank c hc]; rfl
  · exact .lineStart hpasses.before_eq hc

/-- An import names no modules that something is taken from. -/
theorem firstGroups_pythonFrom (hending : Blank ending) :
    firstGroups pythonFrom (moduleImport ms ++ ending) = [] := by
  rw [firstGroups, findAll_eq_nil, List.map_nil]
  intro us s hpasses
  by_cases hne : us = []
  · subst hne
    cases hpasses
    refine Fails.catSecond (Fails.blanksText ?_ (by decide)) ?_
    · rintro ⟨t, ht⟩
      exact absurd (List.cons.inj ht).1 (by decide)
    · intro cs r' hreads
      cases hreads
      rfl
  · exact fails_past_start (notMem_moduleImport (by decide))
      hending (by decide) hne hpasses

theorem firstGroups_pythonImport (hending : Blank ending) (hne : ms ≠ []) :
    firstGroups pythonImport (moduleImport ms ++ ending) =
      [join ", ".toList ((upToRenamed ms).map ImportedModule.name)] := by
  obtain ⟨m, more, rfl⟩ := List.exists_cons_of_ne_nil hne
  obtain ⟨s, r', hpasses, hread, hcaptures⟩ := exists_readsFirst_pythonImport hending m more
  have hlater : ∀ us s', Passes s us s' → Fails pythonImport s' := fun us s' hpasses' =>
    fails_past_start (notMem_moduleImport (by decide)) hending
      (by decide) (by simp) (hpasses.trans hpasses')
  have hscan : Scans pythonImport (fun _ => []) (.atStart (moduleImport (m :: more) ++ ending))
      [matchOf _ _ r'] _ := .hit hread (by simp) hpasses (.none hlater)
  rw [firstGroups, hscan.findAll_eq, List.map_cons, List.map_nil, Match.group_eq hcaptures]

/-- Names in a list are told apart again. -/
theorem map_trim_pieces_join (hne : names ≠ []) (h : ∀ name ∈ names, IsDottedName name) :
    (pieces ',' (join ", ".toList names)).map trim = names :=
  map_trim_pieces hne fun name hname => ⟨(h name hname).notMem (by decide), (h name hname).trim_eq⟩

/-- An import lists its modules up to the first that is renamed, each once. -/
theorem ofPython_moduleImport (hending : Blank ending) (hne : ms ≠ []) :
    ofPython (moduleImport ms ++ ending) =
      ((upToRenamed ms).map ImportedModule.name).eraseDups := by
  have hdotted : ∀ name ∈ (upToRenamed ms).map ImportedModule.name, IsDottedName name :=
    List.forall_mem_map.2 fun m _ => m.isDotted
  have hlisted : (upToRenamed ms).map ImportedModule.name ≠ [] := by
    obtain ⟨m, more, rfl⟩ := List.exists_cons_of_ne_nil hne
    exact List.cons_ne_nil _ _
  have hfilter : ((upToRenamed ms).map ImportedModule.name).filter (· != []) =
      (upToRenamed ms).map ImportedModule.name :=
    List.filter_eq_self.2 fun name hname => bne_iff_ne.2 (hdotted name hname).1
  rw [ofPython]
  simp only [dropKind_hashLine hending, firstGroups_pythonFrom hending,
    firstGroups_pythonImport hending hne, List.nil_append, List.flatMap_cons, List.flatMap_nil,
    List.append_nil, map_trim_pieces_join hlisted hdotted, distinct, hfilter]

theorem exists_append_upToRenamed (ms : List ImportedModule) :
    ∃ left, ms = upToRenamed ms ++ left := by
  induction ms with
  | nil => exact ⟨[], rfl⟩
  | cons m more ih =>
    obtain ⟨left, hleft⟩ := ih
    by_cases hm : m.alias?.isSome
    · exact ⟨more, by rw [upToRenamed, if_pos hm]; rfl⟩
    · refine ⟨left, ?_⟩
      rw [upToRenamed, if_neg hm, List.cons_append, ← hleft]

/-- All modules of an import are listed, each once, if and only if those behind the first that is
    renamed have been named before. -/
theorem ofPython_moduleImport_iff (hending : Blank ending) (hne : ms ≠ []) :
    ofPython (moduleImport ms ++ ending) = (ms.map ImportedModule.name).eraseDups ↔
      ∀ m ∈ ms, m.name ∈ (upToRenamed ms).map ImportedModule.name := by
  rw [ofPython_moduleImport hending hne]
  constructor
  · intro heq m hm
    have hmem : m.name ∈ (ms.map ImportedModule.name).eraseDups :=
      List.mem_eraseDups.2 (List.mem_map_of_mem hm)
    rw [← heq] at hmem
    exact List.mem_eraseDups.1 hmem
  · intro hlisted
    obtain ⟨left, hleft⟩ := exists_append_upToRenamed ms
    -- nothing that is left out would be new
    have hleftListed : (left.map ImportedModule.name).removeAll
        ((upToRenamed ms).map ImportedModule.name) = [] := by
      rw [List.removeAll, List.filter_eq_nil_iff, List.forall_mem_map]
      intro m hm
      have hmem := hlisted m (hleft ▸ List.mem_append_right _ hm)
      simpa using hmem
    have hnames : ms.map ImportedModule.name =
        (upToRenamed ms).map ImportedModule.name ++ left.map ImportedModule.name := by
      rw [← List.map_append, ← hleft]
    rw [hnames, List.eraseDups_append, hleftListed, List.eraseDups_nil, List.append_nil]

/-- What stands behind a renamed module has been named before. -/
theorem ofPython_moduleImport_iff_named_before :
    ofPython "import app.core, numpy as np, app.core\n".toList =
      ["app.core".toList, "numpy".toList] := by
  let ms : List ImportedModule :=
    [⟨"app.core".toList, none, by decide, by simp⟩,
      ⟨"numpy".toList, some "np".toList, by decide, by decide⟩,
      ⟨"app.core".toList, none, by decide, by simp⟩]
  have hending : Blank ['\n'] := by decide
  have hlisted : ∀ m ∈ ms, m.name ∈ (upToRenamed ms).map ImportedModule.name := by decide
  have hnames : (ms.map ImportedModule.name).eraseDups = ["app.core".toList, "numpy".toList] := by
    decide
  have htext : "import app.core, numpy as np, app.core\n".toList = moduleImport ms ++ ['\n'] := by
    decide
  rw [htext, ← hnames]
  exact (ofPython_moduleImport_iff hending (List.cons_ne_nil _ _)).2 hlisted

/-- A module behind a renamed one is left out. -/
theorem ofPython_moduleImport_ne :
    let ms : List ImportedModule :=
      [⟨"os".toList, some "o".toList, by decide +kernel, by decide +kernel⟩,
        ⟨"sys".toList, none, by decide +kernel, by simp⟩]
    moduleImport ms = "import os as o, sys".toList ∧
      ofPython (moduleImport ms) ≠ (ms.map ImportedModule.name).eraseDups := by
  decide +kernel

end CodeSurvey.Import
