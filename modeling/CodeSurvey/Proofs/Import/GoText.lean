import CodeSurvey.Proofs.Comment
import CodeSurvey.Proofs.Import.ModuleList

/-!
Go imports as they are written: with a keyword each, or all of them in one group. Main statement:
neither form has a comment.
-/

namespace CodeSurvey.Import

open Pattern Text

/-- A character in the path of a package. -/
def isPathChar (c : Char) : Bool := isDottedChar c || c == '-' || c == '/'

/-- An import of a package. It may get a new name, or a dot for one that takes its names over. -/
structure GoImport where
  alias? : Option (List Char)
  path : List Char
  isAlias : ∀ a ∈ alias?, a = ['.'] ∨ IsWord a
  ne_nil : path ≠ []
  isPath : ∀ c ∈ path, isPathChar c = true
  singleSlashes : ¬ ['/', '/'] <:+: path

/-- A new name and the space behind it. -/
def aliasText (alias? : Option (List Char)) : List Char := alias?.elim [] (· ++ [' '])

/-- The import on a line that begins with `lead`. -/
def GoImport.line (lead : List Char) (i : GoImport) : List Char :=
  lead ++ (aliasText i.alias? ++ '"' :: (i.path ++ ['"']))

/-- A keyword for each import. -/
def importLines (is : List GoImport) : List Char :=
  join ['\n'] (is.map (·.line "import ".toList))

/-- One keyword for all imports. -/
def importGroup (indent : List Char) (is : List GoImport) : List Char :=
  join ['\n'] ("import (".toList :: (is.map (·.line indent) ++ [[')']]))

/-- The names of the package are taken over. -/
def GoImport.isDot (i : GoImport) : Bool := i.alias? == some ['.']

/-- The new name is the keyword. -/
def GoImport.isKeyword (i : GoImport) : Bool := i.alias? == some "import".toList

variable {i : GoImport} {is : List GoImport} {c : Char} {lead indent ending rest : List Char}

/-! ### Characters of an import -/

/-- A blank or a double quote, with which a word or a path ends. -/
def endsPath (c : Char) : Bool := isBlank c || c == '"'

theorem endsPath_of_isPathChar (h : isPathChar c = true) : endsPath c = false := by
  rw [endsPath, Bool.or_eq_false_iff]
  simp only [isPathChar, Bool.or_eq_true, beq_iff_eq] at h
  rcases h with (h | rfl) | rfl
  · refine ⟨isBlank_of_isDottedChar h, beq_eq_false_iff_ne.2 ?_⟩
    rintro rfl
    exact absurd h (by decide)
  · decide
  · decide

theorem isPathChar_of_isWordChar (h : isWordChar c = true) : isPathChar c = true := by
  rw [isPathChar, isDottedChar, h]
  rfl

theorem GoImport.notMem_path (h : isPathChar c = false) (i : GoImport) : c ∉ i.path := fun hc =>
  Bool.false_ne_true (h.symm.trans (i.isPath c hc))

/-- Before the path stand word characters, dots and spaces only. -/
theorem GoImport.notMem_aliasText (hc : isWordChar c = false) (hdot : c ≠ '.') (hspace : c ≠ ' ')
    (i : GoImport) : c ∉ aliasText i.alias? := by
  have halias := i.isAlias
  intro hmem
  cases h : i.alias? with
  | none =>
    rw [h] at hmem
    exact List.not_mem_nil hmem
  | some a =>
    rw [h] at hmem halias
    rcases List.mem_append.1 hmem with hmem | hmem
    · rcases halias a rfl with rfl | ha
      · exact hdot (List.mem_singleton.1 hmem)
      · exact Bool.false_ne_true (hc.symm.trans (ha.2 c hmem))
    · exact hspace (List.mem_singleton.1 hmem)

theorem GoImport.notMem_line (hc : isPathChar c = false) (hspace : c ≠ ' ') (hquote : c ≠ '"')
    (hlead : c ∉ lead) (i : GoImport) : c ∉ i.line lead := by
  have hword : isWordChar c = false :=
    Bool.eq_false_iff.2 fun h => Bool.false_ne_true (hc.symm.trans (isPathChar_of_isWordChar h))
  have hdot : c ≠ '.' := by
    rintro rfl
    exact absurd hc (by decide)
  simp only [GoImport.line, List.mem_append, List.mem_cons, List.not_mem_nil, or_false, not_or]
  exact ⟨hlead, i.notMem_aliasText hword hdot hspace, hquote, i.notMem_path hc, hquote⟩

theorem GoImport.not_infix_line (hlead : '/' ∉ lead) (i : GoImport) :
    ¬ ['/', '/'] <:+: i.line lead := by
  have halias : '/' ∉ lead ++ aliasText i.alias? := by
    rw [List.mem_append, not_or]
    exact ⟨hlead, i.notMem_aliasText (by decide) (by decide) (by decide)⟩
  have hpath : ¬ ['/', '/'] <:+: i.path ++ ['"'] :=
    not_infix_append i.singleSlashes (not_infix_of_notMem (by decide)) (by decide)
  rw [GoImport.line, ← List.append_assoc]
  exact not_infix_append_cons (not_infix_of_notMem halias) (by decide) (by decide) hpath

/-! ### Lines of imports -/

/-- The lines behind the first one. -/
def furtherLines (lead : List Char) (is : List GoImport) : List Char :=
  is.flatMap fun i => '\n' :: i.line lead

theorem furtherLines_cons (lead : List Char) (i : GoImport) (is : List GoImport) :
    furtherLines lead (i :: is) ++ rest =
      '\n' :: (i.line lead ++ (furtherLines lead is ++ rest)) := by
  simp [furtherLines]

theorem importLines_cons (i : GoImport) (is : List GoImport) :
    importLines (i :: is) = i.line "import ".toList ++ furtherLines "import ".toList is := by
  rw [importLines, List.map_cons, join_cons_eq_flatMap, List.flatMap_map]
  rfl

theorem importGroup_eq (indent : List Char) (is : List GoImport) :
    importGroup indent is = "import (".toList ++ (furtherLines indent is ++ "\n)".toList) := by
  rw [importGroup, join_cons_eq_flatMap, List.flatMap_append, List.flatMap_map]
  rfl

theorem furtherLines_notMem (hc : isPathChar c = false) (hspace : isBlank c = false)
    (hquote : c ≠ '"') (hlead : c ∉ lead) : c ∉ furtherLines lead is := by
  intro hmem
  obtain ⟨i, -, hmem⟩ := List.mem_flatMap.1 hmem
  rcases List.mem_cons.1 hmem with rfl | hmem
  · exact absurd hspace (by decide)
  · refine i.notMem_line hc ?_ hquote hlead hmem
    rintro rfl
    exact absurd hspace (by decide)

/-! ### No comments -/

/-- A text of lines without stars and double slashes has no comments. -/
theorem dropSlashed_join {lines : List (List Char)} (hstar : ∀ line ∈ lines, '*' ∉ line)
    (hslashes : ∀ line ∈ lines, ¬ ['/', '/'] <:+: line) (hending : Blank ending) :
    Comment.dropSlashed (join ['\n'] lines ++ ending) = join ['\n'] lines ++ ending := by
  have hblock : ¬ ['/', '*'] <:+: join ['\n'] lines ++ ending := by
    intro hopener
    rcases List.mem_append.1 (hopener.subset (List.mem_cons_of_mem _ (List.mem_singleton_self '*')))
      with hmem | hmem
    · rcases mem_join hmem with hmem | ⟨line, hline, hmem⟩
      · exact absurd hmem (by decide)
      · exact hstar line hline hmem
    · exact hending.notMem (by decide) hmem
  have hslash : ¬ ['/', '/'] <:+: join ['\n'] lines ++ ending :=
    not_infix_append (not_infix_join hslashes (by decide) (by decide))
      (not_infix_of_notMem (hending.notMem (by decide)))
      fun hhead => hending.notMem (by decide) (List.mem_of_head? hhead)
  rw [Comment.dropSlashed, Comment.dropKind_block, Comment.withoutBlocks_eq_self hblock,
    Comment.dropKind_slashLine, Comment.withoutSlashLines_eq_self hslash]

theorem dropSlashed_importLines (hending : Blank ending) :
    Comment.dropSlashed (importLines is ++ ending) = importLines is ++ ending :=
  dropSlashed_join
    (List.forall_mem_map.2 fun i _ => i.notMem_line (by decide) (by decide) (by decide) (by decide))
    (List.forall_mem_map.2 fun i _ => i.not_infix_line (by decide)) hending

theorem dropSlashed_importGroup (hindent : Blank indent) (hending : Blank ending) :
    Comment.dropSlashed (importGroup indent is ++ ending) = importGroup indent is ++ ending := by
  refine dropSlashed_join (List.forall_mem_cons.2 ⟨by decide, fun line hline => ?_⟩)
    (List.forall_mem_cons.2 ⟨not_infix_of_notMem (by decide), fun line hline => ?_⟩) hending
  · rcases List.mem_append.1 hline with hline | hline
    · obtain ⟨i, -, rfl⟩ := List.mem_map.1 hline
      exact i.notMem_line (by decide) (by decide) (by decide) (hindent.notMem (by decide))
    · obtain rfl := List.mem_singleton.1 hline
      decide
  · rcases List.mem_append.1 hline with hline | hline
    · obtain ⟨i, -, rfl⟩ := List.mem_map.1 hline
      exact i.not_infix_line (hindent.notMem (by decide))
    · obtain rfl := List.mem_singleton.1 hline
      exact not_infix_of_notMem (by decide)

end CodeSurvey.Import
