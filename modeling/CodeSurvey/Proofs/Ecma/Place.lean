import CodeSurvey.Proofs.Ecma.Gaps

/-!
Places of a source. A place stands clear if the source in front of it does not end with anything
that the token there could go on: this is where a statement may begin. Main statements: moving on
leads from places to places, and to a clear one behind a closing sign, a keyword or the end of a
line.
-/

namespace CodeSurvey.Ecma

variable {code source text : List Char} {c : Cursor} {w : String}

/-- A source goes on with the text from one of its lines on. -/
structure Stands (code text : List Char) (line : Nat) : Prop where
  suffix : text <:+ code
  line_eq : line + Text.lineFeeds text = Text.lineFeeds code + 1

/-- In front of the text, a source does not end with a word character or a dot that a text with a
    small letter in front could go on. -/
def Apart (code text : List Char) : Prop :=
  ∀ before, code = before ++ text → ∀ b ∈ before.getLast?, ∀ h ∈ text.head?, h.isLower = true →
    Text.isWordChar b = false ∧ b ≠ '.'

namespace Cursor

/-- The cursor is at a place of a source. -/
structure Within (code : List Char) (c : Cursor) : Prop where
  first : Token.first c.source = (c.token, c.after)
  stands : Stands code c.source c.line
  head : ∀ h ∈ c.source.head?, isSpace h = false
  /-- Behind the end of a line the place is clear. -/
  apart : c.fresh = true → Apart code c.source

/-- The cursor is at a place of a source that stands clear of what is in front of it. -/
structure Clear (code : List Char) (c : Cursor) : Prop extends Within code c where
  clear : Apart code c.source

end Cursor

/-! ### Lines of a source -/

section lines

variable {line n : Nat}

theorem Stands.append {front : List Char} (h : Stands code (front ++ text) line) :
    Stands code text (line + Text.lineFeeds front) where
  suffix := (List.suffix_append front text).trans h.suffix
  line_eq := by rw [Nat.add_assoc, ← Text.lineFeeds_append, h.line_eq]

theorem Stands.drop (h : Stands code source line) (n : Nat) :
    Stands code (source.drop n) (line + Text.lineFeeds (source.take n)) :=
  Stands.append (by rwa [List.take_append_drop])

/-- Characters that are no line feeds lead to no other line. -/
theorem Stands.drop_feedless (h : Stands code source line)
    (hfeed : Text.lineFeeds (source.take n) = 0) : Stands code (source.drop n) line := by
  have hdrop := h.drop n
  rwa [hfeed] at hdrop

end lines

/-! ### Texts that stand apart -/

theorem isLower_facts {h : Char} (hh : h.isLower = true) :
    isLineEnd h = false ∧ isNameChar h = true := by
  have hall : ∀ n < 123, (Char.ofNat n).isLower = true →
      isLineEnd (Char.ofNat n) = false ∧ isNameChar (Char.ofNat n) = true := by decide
  have hle : h.toNat < 123 := by
    have hz := (Bool.and_eq_true_iff.1 hh).2
    simp at hz
    exact Nat.lt_succ_of_le hz
  have hchar := hall h.toNat hle
  rw [Char.ofNat_toNat] at hchar
  exact hchar hh

/-- Behind a gap that is not empty a text stands apart. -/
theorem apart_of_gap {front gap : List Char} (hcode : code = front ++ (gap ++ text))
    (hgap : gap ≠ []) (hend : EndsGap gap text) : Apart code text := by
  intro before hbefore b hb h hh hlower
  have hsame : before = front ++ gap := by
    refine (List.append_left_inj text).1 ?_
    rw [← hbefore, hcode, List.append_assoc]
  rw [hsame, List.getLast?_append_of_ne_nil front hgap] at hb
  rcases hend b hb h hh with hspace | rfl | hline
  · refine ⟨isWordChar_of_isSpace hspace, ?_⟩
    rintro rfl
    exact absurd hspace (by decide)
  · decide
  · rw [(isLower_facts hlower).1] at hline
    cases hline

/-- Behind a text that ends with neither a word character nor a dot the rest stands apart. -/
theorem apart_of_end {front : List Char} {b : Char}
    (hcode : code = front ++ [b] ++ text) (hword : Text.isWordChar b = false) (hdot : b ≠ '.') :
    Apart code text := by
  intro before hbefore d hd _ _ _
  obtain rfl : before = front ++ [b] := List.append_cancel_right (hbefore.symm.trans hcode)
  rw [List.getLast?_concat] at hd
  obtain rfl := Option.some.inj hd
  exact ⟨hword, hdot⟩

/-- A text that does not begin with a small letter stands apart. -/
theorem apart_of_head (h : ∀ d ∈ text.head?, d.isLower = false) : Apart code text := by
  intro _ _ _ _ d hd hlower
  rw [h d hd] at hlower
  cases hlower

theorem apart_self : Apart code code := by
  intro before hbefore
  obtain rfl : before = [] := by simpa using hbefore.symm
  exact nofun

namespace Cursor

/-! ### Moving on -/

theorem Within.suffix (h : Within code c) : c.source <:+ code := h.stands.suffix

/-- The place that is sought stands behind a gap. -/
theorem source_seek (source : List Char) (line : Nat) (atLineStart : Bool) :
    source = trivia atLineStart source ++ (seek source line atLineStart).source ∧
      EndsGap (trivia atLineStart source) (seek source line atLineStart).source ∧
      ∀ h ∈ (seek source line atLineStart).source.head?, isSpace h = false := by
  obtain ⟨rest, hrest, hgap⟩ := exists_trivia atLineStart source
  have hdrop : (seek source line atLineStart).source = rest :=
    (congrArg (List.drop _) hrest).trans (List.drop_left' rfl)
  rw [hdrop]
  exact ⟨hrest, hgap⟩

theorem within_seek {line : Nat} (atLineStart : Bool) (h : Stands code source line) :
    Within code (seek source line atLineStart) := by
  obtain ⟨hsource, hend, hhead⟩ := source_seek source line atLineStart
  refine ⟨rfl, Stands.append (by rwa [← hsource]), hhead, fun hfresh => ?_⟩
  obtain ⟨front, hfront⟩ := h.suffix
  refine apart_of_gap (hfront.symm.trans (congrArg _ hsource)) (fun hnil => ?_) hend
  replace hfresh : (trivia atLineStart source).any isLineEnd = true := hfresh
  rw [hnil] at hfresh
  cases hfresh

/-- One character of a token is no line feed. -/
theorem Within.stands_drop (h : Within code c) : Stands code (c.source.drop 1) c.line := by
  refine h.stands.drop_feedless ?_
  cases hsource : c.source with
  | nil => rfl
  | cons d rest =>
    have hd := h.head d (by rw [hsource]; rfl)
    have hne : d ≠ '\n' := by
      rintro rfl
      exact absurd hd (by decide)
    simp [Text.lineFeeds, hne]

theorem lineAfter_eq (c : Cursor) : c.lineAfter = c.line + c.token.feeds := by
  unfold lineAfter
  cases c.token <;> rfl

theorem Within.stands_after (h : Within code c) : Stands code c.after c.lineAfter where
  suffix := by
    have hafter := isSuffix_first c.source
    rw [h.first] at hafter
    exact hafter.trans h.suffix
  line_eq := by
    have hlines := h.stands.line_eq
    rw [lineFeeds_first h.first] at hlines
    rw [lineAfter_eq]
    omega

theorem Within.stands_after_sign (h : Within code c) (hc : (c.token == .sign w) = true) :
    Stands code c.after c.line := by
  have hafter := h.stands_after
  rwa [lineAfter_eq, eq_of_beq hc] at hafter

theorem Within.next (h : Within code c) : Within code c.next := within_seek false h.stands_after

/-- Where the text stands apart, the place it leads to is clear. -/
theorem clear_seek {line : Nat} (atLineStart : Bool) (h : Stands code source line)
    (hapart : Apart code source) : Clear code (seek source line atLineStart) := by
  refine ⟨within_seek atLineStart h, ?_⟩
  obtain ⟨front, rfl⟩ := h.suffix
  obtain ⟨hsource, hend, -⟩ := source_seek source line atLineStart
  by_cases hgap : trivia atLineStart source = []
  · rw [hgap, List.nil_append] at hsource
    rwa [← hsource]
  · exact apart_of_gap (congrArg _ hsource) hgap hend

/-- The place behind a token is clear, if the text behind the token stands apart. -/
theorem Within.clear_next (h : Within code c) (hafter : Apart code c.after) :
    Clear code c.next := clear_seek false h.stands_after hafter

/-- The sign is none that a word could go on. -/
def closes (w : String) : Bool := w.toList.getLast?.any fun b => !Text.isWordChar b && b != '.'

theorem Within.clear_next_of_sign (h : Within code c) (hc : c.token = .sign w)
    (hw : closes w = true) : Clear code c.next := by
  refine h.clear_next ?_
  obtain ⟨front, hfront⟩ := h.suffix
  have hsource := source_eq_of_first_sign (hc ▸ h.first)
  obtain ⟨b, hb, hclosed⟩ := (Option.any_eq_true ..).1 hw
  obtain ⟨hword, hdot⟩ := Bool.and_eq_true_iff.1 hclosed
  obtain ⟨before, hbefore⟩ := List.getLast?_eq_some_iff.1 hb
  have hcode : code = (front ++ before) ++ [b] ++ c.after := by
    rw [← hfront, hsource, hbefore]
    simp
  exact apart_of_end hcode (by simpa using hword) (by simpa using hdot)

theorem Within.clear_next_of_word (h : Within code c) (hc : c.token = .word w) :
    Clear code c.next := by
  refine h.clear_next (apart_of_head fun d hd => ?_)
  have hname := isNameChar_of_first_word (hc ▸ h.first) d hd
  cases hlower : d.isLower with
  | false => rfl
  | true =>
    rw [(isLower_facts hlower).2] at hname
    cases hname

theorem Within.clear_of_fresh (h : Within code c) (hc : c.fresh = true) : Clear code c :=
  ⟨h, h.apart hc⟩

theorem Within.clear_of_brace (h : Within code c) (hc : c.token = .sign "\x7d") :
    Clear code c := by
  refine ⟨h, apart_of_head fun d hd => ?_⟩
  have hsource : c.source = ['\x7d'] ++ c.after := source_eq_of_first_sign (hc ▸ h.first)
  rw [hsource] at hd
  obtain rfl := Option.some.inj hd
  rfl

theorem Within.clear_of_stop (h : Within code c) (hc : c.token = .stop) : Clear code c := by
  refine ⟨h, apart_of_head fun d hd => ?_⟩
  have hsource : c.source = [] := source_eq_nil_of_first (hc ▸ h.first)
  rw [hsource] at hd
  cases hd

end Cursor

end CodeSurvey.Ecma
