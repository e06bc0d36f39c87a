import CodeSurvey.Plan.Classification
import CodeSurvey.Proofs.Pattern.Shortest
import CodeSurvey.Proofs.Text.Pieces
import Mathlib.Logic.ExistsUnique

/-!
The head of a plan against its body. The head reaches to the first line that begins with three
hyphens after the opening one. Main statement: what stands behind these hyphens has no influence on
the entries of the head if and only if something stands between the two lines; the block needs a
character inside, so without one it takes the closing line for its inside and goes on into the body.
-/

namespace CodeSurvey.Plan

open Pattern

/-- What the lines around a head begin with. -/
def dashes : List Char := "---".toList

/-- The opening line, which may end with a carriage return. -/
def opening (returned : Bool) : List Char := dashes ++ (if returned then ['\r'] else []) ++ ['\n']

/-- The start of a plan up to the three hyphens that close its head. -/
structure Head where
  /-- The opening line ends with a carriage return. -/
  returned : Bool
  /-- The lines between the opening and the closing one. -/
  lines : List (List Char)
  unbroken : ∀ line ∈ lines, '\n' ∉ line
  inner : ∀ line ∈ lines, ¬ dashes <+: line

namespace Head

variable {h h' : Head} {rest : List Char} {r r' s : Reading} {cs : List Char}

def text (h : Head) : List Char :=
  opening h.returned ++ (h.lines.flatMap fun line => line ++ ['\n']) ++ dashes

/-- What stands between the opening line and the line feed before the closing one. -/
def inside (h : Head) : List Char := Text.join ['\n'] h.lines

/-! ### Every plan with an opening and a closing line has one head -/

theorem pieces_lines {lines : List (List Char)} (h : ∀ line ∈ lines, '\n' ∉ line)
    (rest : List Char) :
    Text.pieces '\n' ((lines.flatMap fun line => line ++ ['\n']) ++ rest) =
      lines ++ Text.pieces '\n' rest := by
  induction lines with
  | nil => rfl
  | cons line more ih =>
    obtain ⟨hline, hmore⟩ := List.forall_mem_cons.1 h
    rw [List.flatMap_cons, List.append_assoc, List.append_assoc, List.singleton_append,
      Text.pieces_of_first hline, ih hmore, List.cons_append]

/-- The line that a text with three hyphens in front begins with. -/
theorem exists_closing (rest : List Char) :
    ∃ line more, Text.pieces '\n' (dashes ++ rest) = (dashes ++ line) :: more := by
  obtain ⟨line, more, hrest⟩ := List.exists_cons_of_ne_nil (Text.pieces_ne_nil '\n' rest)
  exact ⟨line, more, Text.pieces_append_of_notMem (by decide) hrest⟩

theorem isInner_iff {line : List Char} : (!dashes.isPrefixOf line) = true ↔ ¬ dashes <+: line := by
  rw [Bool.not_eq_true', ← Bool.not_eq_true, List.isPrefixOf_iff_prefix]

/-- The lines of a head are those before the first one that begins with three hyphens. -/
theorem lines_eq_takeWhile (h : Head) (rest : List Char) :
    h.lines = (Text.pieces '\n' ((h.lines.flatMap fun line => line ++ ['\n']) ++
      (dashes ++ rest))).takeWhile fun line => !dashes.isPrefixOf line := by
  obtain ⟨line, more, hclosing⟩ := exists_closing rest
  rw [pieces_lines h.unbroken, hclosing, List.takeWhile_append_of_pos, List.takeWhile_cons_of_neg,
    List.append_nil]
  · simp
  · exact fun line hline => isInner_iff.2 (h.inner line hline)

theorem opening_append_inj {b b' : Bool} {s t : List Char}
    (h : opening b ++ s = opening b' ++ t) : b = b' ∧ s = t := by
  cases b <;> cases b' <;> simp_all [opening, dashes]

/-- A text that goes on after its opening line has at most one head. -/
theorem eq_of_prefix {text : List Char} (hpre : h.text <+: text) (hpre' : h'.text <+: text) :
    h = h' := by
  obtain ⟨rest, rfl⟩ := hpre
  obtain ⟨rest', heq⟩ := hpre'
  simp only [Head.text, List.append_assoc] at heq
  obtain ⟨hreturned, hlines⟩ := opening_append_inj heq
  have := h.lines_eq_takeWhile rest
  rw [← hlines, ← h'.lines_eq_takeWhile rest'] at this
  cases h
  cases h'
  simp_all

/-- A text has a head if a line after its opening one begins with three hyphens. -/
theorem exists_prefix (returned : Bool)
    (closed : ∃ line ∈ Text.pieces '\n' rest, dashes <+: line) :
    ∃ h : Head, h.text <+: opening returned ++ rest := by
  have hsome : ((Text.pieces '\n' rest).find? dashes.isPrefixOf).isSome :=
    List.find?_isSome.2 (by simpa using closed)
  obtain ⟨closing, hfind⟩ := Option.isSome_iff_exists.1 hsome
  obtain ⟨hclosing, lines, more, hpieces, hlines⟩ := List.find?_eq_some_iff_append.1 hfind
  obtain ⟨behind, rfl⟩ := List.isPrefixOf_iff_prefix.1 hclosing
  refine ⟨⟨returned, lines, fun line hline => Text.notMem_of_mem_pieces '\n' (s := rest) ?_,
    fun line hline => isInner_iff.1 (hlines line hline)⟩, ?_⟩
  · rw [hpieces]
    exact List.mem_append_left _ hline
  · have hrest := Text.join_pieces '\n' rest
    rw [hpieces, Text.join_append_cons, Text.join_append_left] at hrest
    refine ⟨Text.join ['\n'] (behind :: more), ?_⟩
    simp only [Head.text, List.append_assoc, hrest]

theorem existsUnique_prefix (returned : Bool)
    (closed : ∃ line ∈ Text.pieces '\n' rest, dashes <+: line) :
    ∃! h : Head, h.text <+: opening returned ++ rest := by
  obtain ⟨h, hpre⟩ := exists_prefix returned closed
  exact ⟨h, hpre, fun _ hpre' => eq_of_prefix hpre' hpre⟩

/-! ### What stands between the two lines -/

theorem text_eq (hne : h.lines ≠ []) :
    h.text = opening h.returned ++ (h.inside ++ '\n' :: dashes) := by
  have hlines : (h.lines.flatMap fun line => line ++ ['\n']) = h.inside ++ ['\n'] := by
    rw [← List.append_nil (h.lines.flatMap _)]
    exact (Text.join_append_cons _ _ [] []).symm.trans
      ((Text.join_concat _ hne []).trans (List.append_nil _))
  rw [text, hlines, List.append_assoc, List.append_assoc, List.singleton_append]

/-- Behind a line feed on the inside no closing line begins. -/
theorem not_dashes_behind {us ls : List Char} (hinside : h.inside = us ++ '\n' :: ls)
    (rest : List Char) : ¬ dashes <+: ls ++ '\n' :: rest := by
  rintro ⟨behind, hdashes⟩
  have hne : h.lines ≠ [] := by
    intro hnil
    simp [inside, hnil, Text.join] at hinside
  have hlines : h.lines = Text.pieces '\n' us ++ Text.pieces '\n' ls := by
    rw [← Text.pieces_append, ← hinside, inside, Text.pieces_join hne h.unbroken]
  obtain ⟨line, more, hls⟩ := List.exists_cons_of_ne_nil (Text.pieces_ne_nil '\n' ls)
  obtain ⟨line', more', hclosing⟩ := exists_closing behind
  rw [hdashes, Text.pieces_append, hls, List.cons_append] at hclosing
  obtain ⟨rfl, -⟩ := List.cons.inj hclosing
  refine h.inner (dashes ++ line') ?_ (List.prefix_append _ _)
  rw [hlines, hls]
  simp

/-- What the entries of the head are read from: the inside, without the carriage return that ends
    its last line unless nothing else stands there. -/
def block (h : Head) : List Char :=
  if h.inside.getLast? = some '\r' ∧ 1 < h.inside.length then h.inside.dropLast else h.inside

theorem exists_block (hne : h.inside ≠ []) : ∃ ret, h.inside = h.block ++ ret ∧ h.block ≠ [] ∧
    (ret = ['\r'] ∨ ret = [] ∧ ∀ us, us ≠ [] → us ++ ['\r'] ≠ h.block) := by
  unfold block
  split
  · rename_i hcut
    obtain ⟨hlast, hlength⟩ := hcut
    obtain ⟨front, hfront⟩ := List.getLast?_eq_some_iff.1 hlast
    rw [hfront, List.dropLast_concat]
    refine ⟨['\r'], rfl, ?_, .inl rfl⟩
    rintro rfl
    simp [hfront] at hlength
  · rename_i hkeep
    refine ⟨[], (List.append_nil _).symm, hne, .inr ⟨rfl, ?_⟩⟩
    rintro us hus heq
    refine hkeep ⟨by rw [← heq, List.getLast?_concat], ?_⟩
    have := List.length_pos_iff.2 hus
    rw [← heq, List.length_append, List.length_singleton]
    omega

/-! ### Reading the block -/

/-- What closes the block. -/
def closing : Pattern := .cat (maybe (lit "\r")) (lit "\n---")

/-- The block is closed by a line feed and three hyphens, perhaps with a carriage return before. -/
theorem closing_ahead {s s' : Reading} (hreads : Reads closing s cs s') :
    '\n' :: dashes <+: s.rest ∨ '\r' :: '\n' :: dashes <+: s.rest := by
  obtain ⟨s₁, _, _, hreturn, hdashes⟩ := exists_of_reads_cat hreads
  have hrest := (passes_of_reads_text hdashes).rest_eq
  cases hreturn with
  | altFirst hreturn =>
    refine .inr ⟨s'.rest, ?_⟩
    rw [(passes_of_reads_text hreturn).rest_eq, hrest]
    rfl
  | altSecond hnothing =>
    cases hnothing
    exact .inl ⟨s'.rest, hrest.symm⟩

/-- The block is not closed before its end. -/
theorem fails_closing {us ls ret : List Char} {s : Reading} (hinside : h.inside = us ++ ls ++ ret)
    (hls : ls ≠ []) (hret : ret = ['\r'] ∨ ret = [] ∧ us ++ ['\r'] ≠ us ++ ls)
    (hs : s.rest = ls ++ (ret ++ '\n' :: rest)) : Fails closing s := by
  intro cs s' hreads
  obtain ⟨c, ls, rfl⟩ := List.exists_cons_of_ne_nil hls
  rcases closing_ahead hreads with hfeed | hreturn
  · rw [hs, List.cons_append, List.cons_prefix_cons, ← List.append_assoc] at hfeed
    obtain ⟨rfl, hdashes⟩ := hfeed
    exact not_dashes_behind (by rw [hinside, List.append_assoc, List.cons_append]) rest hdashes
  · rw [hs, List.cons_append, List.cons_prefix_cons] at hreturn
    obtain ⟨rfl, hfeed⟩ := hreturn
    cases ls with
    | nil =>
      rcases hret with rfl | ⟨-, hne⟩
      · exact absurd (List.cons_prefix_cons.1 hfeed).1 (by decide)
      · exact hne rfl
    | cons d ls =>
      rw [List.cons_append, List.cons_prefix_cons, ← List.append_assoc] at hfeed
      obtain ⟨rfl, hdashes⟩ := hfeed
      have hinside' : h.inside = (us ++ ['\r']) ++ '\n' :: (ls ++ ret) := by simp [hinside]
      exact not_dashes_behind hinside' rest hdashes

/-- The block reaches to the closing line if something stands between the two lines. -/
theorem headText?_text_append (hne : h.inside ≠ []) (body : List Char) :
    headText? (h.text ++ body) = some h.block := by
  obtain ⟨ret, hinside, hblock, hret⟩ := exists_block hne
  have hlines : h.lines ≠ [] := fun hnil => hne (by rw [inside, hnil]; rfl)
  obtain ⟨r₁, h₁, hr₁⟩ : ∃ r₁, Passes (.atStart (h.text ++ body)) dashes r₁ ∧
      r₁.rest = (if h.returned then ['\r'] else []) ++
        ('\n' :: (h.block ++ (ret ++ '\n' :: (dashes ++ body)))) := by
    refine exists_passes ?_
    show h.text ++ body = _
    rw [text_eq hlines, hinside]
    simp [opening]
  have hreturned : (if h.returned then ['\r'] else []) = ['\r'] ∨
      (if h.returned then ['\r'] else []) = [] := by cases h.returned <;> simp
  obtain ⟨r₂, hreturn, h₂, hr₂⟩ := exists_readsFirst_maybe hreturned hr₁ (by simp)
  obtain ⟨r₃, h₃, hr₃⟩ := exists_passes (show r₂.rest = ['\n'] ++ _ from hr₂)
  obtain ⟨r₄, h₄, hr₄⟩ := exists_passes hr₃
  obtain ⟨r₅, hreturn', h₅, hr₅⟩ := exists_readsFirst_maybe (r := r₃.remember 1 r₄)
    (hret.imp_right And.left) hr₄ (by simp)
  obtain ⟨r₆, h₆, -⟩ := exists_passes (show r₅.rest = '\n' :: dashes ++ body from hr₅)
  have hread : ReadsFirst headBlock (.atStart (h.text ++ body)) _ r₆ :=
    (ReadsFirst.text h₁).cat <| hreturn.cat <| (ReadsFirst.text h₃).cat <|
      .groupShortest h₄ (fun _ _ => rfl) (List.length_pos_iff.2 hblock)
        (fun us ls hcs hls hus s hs => fails_closing (by rw [hcs, hinside]) hls
          (hret.imp_right fun ⟨hnil, hlast⟩ => ⟨hnil, hcs ▸ hlast us (List.length_pos_iff.1 hus)⟩)
          (hs.trans (by rw [hr₄])))
        (hreturn'.cat (.text h₆))
  have hcaptures : r₆.captures = ⟨1, h.block ++ r₄.rest, h.block.length⟩ :: r₃.captures := by
    rw [h₆.captures_eq, h₅.captures_eq, h₄.captures_remember]
  have hmarks : (h.text ++ body).dropWhile (· == '\uFEFF') = h.text ++ body := rfl
  rw [headText?, hmarks, matchStart?, hread.matchAt?_eq, Option.map_some, Match.group_eq hcaptures]

/-! ### What the body can change -/

/-- The head alone decides the entries. -/
theorem frontmatter_append (hne : h.inside ≠ []) (body body' : List Char) :
    frontmatter (h.text ++ body) = frontmatter (h.text ++ body') := by
  rw [frontmatter, frontmatter, headText?_text_append hne, headText?_text_append hne]

/-- The lines between the two are none, or an empty one. -/
theorem inside_eq_nil_iff : h.inside = [] ↔ h.lines = [] ∨ h.lines = [[]] := by
  unfold inside
  match h.lines with
  | [] => simp [Text.join]
  | [line] => simp [Text.join]
  | line :: line' :: more => simp [Text.join]

/-- With nothing between the two lines the body can bring entries. -/
theorem frontmatter_append_ne (hnil : h.inside = []) :
    frontmatter (h.text ++ []) ≠ frontmatter (h.text ++ "\nwave: 2\n---".toList) := by
  have hcount : ∀ returned, ∀ lines ∈ [[], [[]]],
      let head := opening returned ++ (lines.flatMap fun line => line ++ ['\n']) ++ dashes
      (frontmatter (head ++ [])).toOption.map (·.length) = some 0 ∧
        (frontmatter (head ++ "\nwave: 2\n---".toList)).toOption.map (·.length) = some 1 := by
    decide +kernel
  obtain ⟨hnone, hone⟩ := hcount h.returned h.lines (by simpa using inside_eq_nil_iff.1 hnil)
  intro heq
  have hcounts := congrArg (fun entries => entries.toOption.map (·.length)) heq
  exact absurd (hnone.symm.trans (hcounts.trans hone)) (by decide)

/-- What the scheduler takes from the head of a plan. -/
def settings (c : Classification) : Int × Bool := (c.wave, c.autonomous)

/-- The body of a plan has no influence on its head if and only if something stands between the
    lines around it. -/
theorem decides_iff (h : Head) :
    (∀ body body' : List Char, frontmatter (h.text ++ body) = frontmatter (h.text ++ body') ∧
      ∀ name graph, (Classification.ofPlan? name (h.text ++ body) graph).map settings =
        (Classification.ofPlan? name (h.text ++ body') graph).map settings) ↔ h.inside ≠ [] := by
  constructor
  · intro hsame hnil
    exact frontmatter_append_ne hnil (hsame _ _).1
  · intro hne body body'
    have heq := frontmatter_append hne body body'
    refine ⟨heq, fun name graph => ?_⟩
    rw [Classification.ofPlan?, Classification.ofPlan?, heq]
    cases frontmatter (h.text ++ body') <;> rfl

/-- The closing line right after the opening one is taken for the inside of the block. -/
theorem body_sets_wave :
    let head : Head := ⟨false, [], List.forall_mem_nil _, List.forall_mem_nil _⟩
    frontmatter (head.text ++ []) ≠ frontmatter (head.text ++ "\nwave: 2\n---".toList) ∧
      (Classification.ofPlan? "p.md" (head.text ++ []) none).map settings = some (1, false) ∧
      (Classification.ofPlan? "p.md" (head.text ++ "\nwave: 2\n---".toList) none).map settings =
        some (2, false) :=
  ⟨frontmatter_append_ne rfl, by decide +kernel, by decide +kernel⟩

end Head

end CodeSurvey.Plan
