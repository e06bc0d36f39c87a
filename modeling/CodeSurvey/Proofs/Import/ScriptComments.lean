import CodeSurvey.Proofs.Comment
import CodeSurvey.Proofs.Import.ScriptLines
import CodeSurvey.Proofs.Text.Lines

/-!
Comments cut out of import lines. A block comment can reach from one source into a later one; it
never begins or ends between sources. Main statement: what is left is again a script of import
lines, for the sources that are left when block comments are cut out of the sources alone.
-/

namespace CodeSurvey.Comment

variable {s rest after : List Char} {c : Char}

/-! ### Text without slashes and stars -/

theorem behindCloser?_cons (h : c = '*' → rest.head? ≠ some '/') :
    behindCloser? (c :: rest) = behindCloser? rest := by
  rw [behindCloser?.eq_def]
  split
  · rename_i heq
    obtain ⟨rfl, rfl⟩ := List.cons.inj heq
    exact absurd rfl (h rfl)
  · rename_i heq
    rw [(List.cons.inj heq).2]
  · simp at *

theorem behindCloser?_append (h : '*' ∉ s) (rest : List Char) :
    behindCloser? (s ++ rest) = behindCloser? rest := by
  induction s with
  | nil => rfl
  | cons c s ih =>
    obtain ⟨hc, hs⟩ := List.ne_and_not_mem_of_not_mem_cons h
    rw [List.cons_append, behindCloser?_cons fun heq => absurd heq.symm hc, ih hs]

theorem withoutBlocks_of_closed (h : behindCloser? rest = some after) :
    withoutBlocks ('/' :: '*' :: rest) = withoutBlocks after := by
  rw [withoutBlocks]
  split
  · rename_i heq
    rw [Option.some.inj (h.symm.trans heq)]
  · rename_i heq
    rw [h] at heq
    simp at heq

theorem withoutBlocks_of_open (h : behindCloser? rest = none) :
    withoutBlocks ('/' :: '*' :: rest) = '/' :: withoutBlocks ('*' :: rest) := by
  rw [withoutBlocks]
  split
  · rename_i heq
    rw [h] at heq
    simp at heq
  · rfl

theorem withoutBlocks_cons (h : c = '/' → rest.head? ≠ some '*') :
    withoutBlocks (c :: rest) = c :: withoutBlocks rest := by
  rw [withoutBlocks]
  rintro more rfl rfl
  exact h rfl rfl

theorem withoutBlocks_append (h : '/' ∉ s) (rest : List Char) :
    withoutBlocks (s ++ rest) = s ++ withoutBlocks rest := by
  induction s with
  | nil => rfl
  | cons c s ih =>
    obtain ⟨hc, hs⟩ := List.ne_and_not_mem_of_not_mem_cons h
    rw [List.cons_append, withoutBlocks_cons fun heq => absurd heq.symm hc, ih hs]
    rfl

end CodeSurvey.Comment

namespace CodeSurvey.Import

open Comment

variable {last u v gap : List Char} {lines : List ImportLine}

/-- Written out from the first quote on: a line feed in `u` is the end of a line and the front of
    the next one in `v`, and `v` ends in a quote and `last`. -/
inductive Spreads (last : List Char) : List Char → List Char → Prop where
  | done : Spreads last [] ('\'' :: last)
  | char {c : Char} {u v : List Char} (notBlank : Text.isBlank c = false)
      (notQuote : isQuote c = false) (more : Spreads last u v) : Spreads last (c :: u) (c :: v)
  | line {gap u v : List Char} (isGap : IsGap gap) (more : Spreads last u v) :
      Spreads last ('\n' :: u) ('\'' :: (gap ++ '\'' :: v))

theorem IsName.notMem_front {name : List Char} (h : IsName name) :
    '/' ∉ ImportLine.front name ∧ '*' ∉ ImportLine.front name := by
  rw [front_eq]
  simp [h.noSlash, h.noStar]

theorem IsGap.notMem (h : IsGap gap) : '/' ∉ gap ∧ '*' ∉ gap := by
  obtain ⟨lead, name, hlead, hname, rfl⟩ := h
  obtain ⟨hslash, hstar⟩ := hname.notMem_front
  rcases hlead with rfl | rfl <;> simp [hslash, hstar]

theorem Spreads.append {s : List Char} (h : Spreads last u v) (hs : Plain s) :
    Spreads last (s ++ u) (s ++ v) := by
  induction s with
  | nil => exact h
  | cons c s ih =>
    obtain ⟨hc, hmore⟩ := List.forall_mem_cons.1 hs
    exact .char hc.1 hc.2 (ih hmore)

/-! ### Block comments -/

theorem Spreads.head? {c : Char} (h : Spreads last u v) (hc : c ≠ '\'')
    (hv : v.head? = some c) : u.head? = some c := by
  cases h with
  | done => exact absurd (Option.some.inj hv).symm hc
  | char _ _ _ => exact hv
  | line _ _ => exact absurd (Option.some.inj hv).symm hc

/-- A block comment is closed at the same place of both texts. -/
theorem Spreads.behindCloser? (hlast : '*' ∉ last) (h : Spreads last u v) :
    Option.Rel (Spreads last) (behindCloser? u) (Comment.behindCloser? v) := by
  induction h with
  | done =>
    have hnone : Comment.behindCloser? (('\'' :: last) ++ []) = none :=
      behindCloser?_append (by simpa using hlast) []
    rw [List.append_nil] at hnone
    rw [hnone]
    exact .none
  | @char c u v hblank hquote more ih =>
    by_cases hcloser : c = '*' ∧ u.head? = some '/'
    · obtain ⟨rfl, hu⟩ := hcloser
      obtain ⟨u, rfl⟩ := List.head?_eq_some_iff.1 hu
      cases more with
      | char _ _ more => exact .some more
    · rw [behindCloser?_cons fun hc hu => hcloser ⟨hc, hu⟩,
        behindCloser?_cons fun hc hv => hcloser ⟨hc, more.head? (by decide) hv⟩]
      exact ih
  | @line gap u v isGap more ih =>
    have hgap : '*' ∉ '\'' :: (gap ++ ['\'']) := by simp [isGap.notMem.2]
    have hskip : Comment.behindCloser? ('\'' :: (gap ++ '\'' :: v)) = Comment.behindCloser? v := by
      simpa using behindCloser?_append hgap v
    rw [behindCloser?_cons fun hc => absurd hc (by decide), hskip]
    exact ih

/-- Cutting block comments out of both texts leaves them alike. -/
theorem Spreads.withoutBlocks (hslash : '/' ∉ last) (hstar : '*' ∉ last) (h : Spreads last u v) :
    Spreads last (withoutBlocks u) (Comment.withoutBlocks v) := by
  fun_induction Comment.withoutBlocks u generalizing v with
  | case1 rest after hcloser ih =>
    cases h with
    | char _ _ more =>
      cases more with
      | char _ _ more =>
        have hrel := more.behindCloser? hstar
        rw [hcloser] at hrel
        generalize hafter : Comment.behindCloser? _ = after? at hrel
        cases hrel with
        | some hmore =>
          rw [withoutBlocks_of_closed hafter]
          exact ih hmore
  | case2 rest hcloser ih =>
    cases h with
    | char hblank hquote more =>
      cases more with
      | char hblank' hquote' more =>
        have hrel := more.behindCloser? hstar
        rw [hcloser] at hrel
        generalize hafter : Comment.behindCloser? _ = after? at hrel
        cases hrel with
        | none =>
          rw [withoutBlocks_of_open hafter]
          exact .char hblank hquote (ih (.char hblank' hquote' more))
  | case3 c rest hno ih =>
    cases h with
    | char hblank hquote more =>
      rw [withoutBlocks_cons fun hc hv => ?_]
      · exact .char hblank hquote (ih more)
      · obtain ⟨rest, rfl⟩ := List.head?_eq_some_iff.1 (more.head? (by decide) hv)
        exact hno rest hc rfl
    | @line gap _ v isGap more =>
      have hgap : '/' ∉ '\'' :: (gap ++ ['\'']) := by simp [isGap.notMem.1]
      have hskip : Comment.withoutBlocks ('\'' :: (gap ++ '\'' :: v)) =
          '\'' :: (gap ++ '\'' :: Comment.withoutBlocks v) := by
        simpa using withoutBlocks_append hgap v
      rw [hskip]
      exact .line isGap (ih more)
  | case4 =>
    cases h with
    | done =>
      have hlast : Comment.withoutBlocks (('\'' :: last) ++ []) = ('\'' :: last) ++ [] :=
        (withoutBlocks_append (by simpa using hslash) []).trans (by rw [Comment.withoutBlocks])
      rw [List.append_nil] at hlast
      rw [hlast]
      exact .done

/-! ### Scripts as quoted texts -/

/-- The lines of the short text are the texts in quotes of the long one. -/
theorem Spreads.exists_quoted (h : Spreads last u v) :
    ∃ source more, v = source ++ '\'' :: quoted more last ∧
      Text.pieces '\n' u = source :: more.map (·.2) ∧ Plain source ∧ IsScript more := by
  induction h with
  | done => exact ⟨[], [], rfl, rfl, by simp [Plain], by simp [IsScript]⟩
  | @char c u v hblank hquote _ ih =>
    obtain ⟨source, more, rfl, hpieces, hsource, hmore⟩ := ih
    have hc : c ≠ '\n' := by
      rintro rfl
      exact absurd hblank (by decide)
    obtain ⟨line, lines, hu, hcons⟩ := Text.pieces_cons_of_ne hc u
    obtain ⟨rfl, rfl⟩ := List.cons.inj (hu.symm.trans hpieces)
    exact ⟨c :: line, more, rfl, hcons, List.forall_mem_cons.2 ⟨⟨hblank, hquote⟩, hsource⟩, hmore⟩
  | @line gap u v isGap _ ih =>
    obtain ⟨source, more, rfl, hpieces, hsource, hmore⟩ := ih
    refine ⟨[], (gap, source) :: more, rfl, ?_, by simp [Plain],
      List.forall_mem_cons.2 ⟨⟨isGap, hsource⟩, hmore⟩⟩
    rw [Text.pieces, if_pos (beq_self_eq_true _), hpieces]
    rfl

/-- A script writes out its sources. -/
theorem exists_spreads (line : ImportLine) (lines : List ImportLine) (ending : List Char) :
    ∃ v, scriptText (line :: lines) ++ ending = ImportLine.front line.name ++ '\'' :: v ∧
      Spreads (';' :: ending) (Text.join ['\n'] ((line :: lines).map (·.source))) v := by
  induction lines generalizing line with
  | nil =>
    refine ⟨line.source ++ '\'' :: ';' :: ending, ?_, ?_⟩
    · simp [scriptText, Text.join, ImportLine.text]
    · have hdone : Spreads (';' :: ending) [] ('\'' :: ';' :: ending) := .done
      have hsource := hdone.append line.isSource.plain
      rwa [List.append_nil] at hsource
  | cons next lines ih =>
    obtain ⟨v, htext, hv⟩ := ih next
    refine ⟨line.source ++ '\'' :: ((";\n".toList ++ ImportLine.front next.name) ++ '\'' :: v),
      ?_, ?_⟩
    · have hjoin : scriptText (line :: next :: lines) ++ ending =
          line.text ++ ('\n' :: (scriptText (next :: lines) ++ ending)) := by
        simp [scriptText, Text.join_cons_cons]
      rw [hjoin, htext]
      simp [ImportLine.text]
    · rw [List.map_cons, List.map_cons, Text.join_cons_cons, List.append_assoc]
      exact (Spreads.line ⟨_, next.name, .inr rfl, next.isName, rfl⟩ hv).append line.isSource.plain

/-- The sources that are left, some of them empty, when block comments are cut out of sources that
    stand on one line each. -/
def spared (sources : List (List Char)) : List (List Char) :=
  Text.pieces '\n' (dropKind block (Text.join ['\n'] sources))

theorem IsSource.notMem_lineFeed {source : List Char} (h : IsSource source) : '\n' ∉ source :=
  fun hmem => absurd (h.plain '\n' hmem).1 (by decide)

/-- A script holds a double slash only in a source. -/
theorem not_infix_scriptText {ending : List Char} (hending : '/' ∉ ending)
    (h : ∀ line ∈ lines, ¬ ['/', '/'] <:+: line.source) :
    ¬ ['/', '/'] <:+: scriptText lines ++ ending := by
  have hline : ∀ line ∈ lines, ¬ ['/', '/'] <:+: line.text := by
    intro line hline
    rw [ImportLine.text, List.append_assoc, List.cons_append]
    exact Text.not_infix_append_cons (Text.not_infix_of_notMem line.isName.notMem_front.1)
      (by decide) (by decide) (Text.not_infix_append_cons (h line hline) (by decide) (by decide)
        (Text.not_infix_of_notMem (by decide)))
  have hscript : ¬ ['/', '/'] <:+: scriptText lines :=
    Text.not_infix_join (List.forall_mem_map.2 hline) (by decide) (by decide)
  cases ending with
  | nil => rwa [List.append_nil]
  | cons c ending =>
    obtain ⟨hc, hmore⟩ := List.ne_and_not_mem_of_not_mem_cons hending
    exact Text.not_infix_append_cons hscript hc.symm hc.symm (Text.not_infix_of_notMem hmore)

/-- What comments leave of a script is a script for the sources that are left. -/
theorem exists_quoted_dropSlashed {ending : List Char} (line : ImportLine)
    (hending : Blank ending) (h : ∀ other ∈ line :: lines, ¬ ['/', '/'] <:+: other.source) :
    ∃ parts, IsScript parts ∧ parts.map (·.2) = spared ((line :: lines).map (·.source)) ∧
      dropSlashed (scriptText (line :: lines) ++ ending) = quoted parts (';' :: ending) := by
  have hslash : '/' ∉ ending := hending.notMem rfl
  have hstar : '*' ∉ ending := hending.notMem rfl
  obtain ⟨v, htext, hv⟩ := exists_spreads line lines ending
  obtain ⟨source, more, hv', hpieces, hsource, hmore⟩ :=
    (hv.withoutBlocks (by simpa using hslash) (by simpa using hstar)).exists_quoted
  refine ⟨(ImportLine.front line.name, source) :: more,
    List.forall_mem_cons.2 ⟨⟨⟨[], line.name, .inl rfl, line.isName, rfl⟩, hsource⟩, hmore⟩, ?_, ?_⟩
  · rw [spared, dropKind_block, hpieces]
    rfl
  · have hblocks : Comment.withoutBlocks (scriptText (line :: lines) ++ ending) =
        quoted ((ImportLine.front line.name, source) :: more) (';' :: ending) := by
      rw [htext, withoutBlocks_append line.isName.notMem_front.1,
        withoutBlocks_cons fun hc => absurd hc (by decide), hv']
      rfl
    have hslashes := not_infix_withoutBlocks (not_infix_scriptText hslash h)
    rw [dropSlashed, dropKind_block, dropKind_slashLine, withoutSlashLines_eq_self hslashes,
      hblocks]

end CodeSurvey.Import
