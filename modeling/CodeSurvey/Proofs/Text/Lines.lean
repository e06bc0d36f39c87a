import CodeSurvey.Text.Basic
import Mathlib.Data.List.Forall2

/-!
Texts compared line by line. Main statement: leaving out characters of a text leaves out characters
of each line by itself if and only if no line feed is left out.
-/

namespace CodeSurvey.Text

/-- The new text has as many lines as the old one, and each of them is the line at the same place in
    the old text with some characters left out. -/
def LineByLine (old new : List Char) : Prop :=
  List.Forall₂ List.Sublist (pieces '\n' new) (pieces '\n' old)

variable {old new : List Char} {c : Char}

/-- A character that is no line feed stands at the front of the first line. -/
theorem pieces_cons_of_ne (hc : c ≠ '\n') (s : List Char) :
    ∃ line more, pieces '\n' s = line :: more ∧ pieces '\n' (c :: s) = (c :: line) :: more := by
  obtain ⟨line, more, hs⟩ := List.exists_cons_of_ne_nil (pieces_ne_nil '\n' s)
  refine ⟨line, more, hs, ?_⟩
  rw [pieces, beq_false_of_ne hc, hs]
  rfl

theorem LineByLine.lineFeeds_eq (h : LineByLine old new) : lineFeeds new = lineFeeds old := by
  have := h.length_eq
  rw [length_pieces, length_pieces] at this
  exact Nat.succ.inj this

/-- Joined again, thinner pieces make a thinner text. -/
theorem join_sublist {sep : List Char} {ps qs : List (List Char)}
    (h : List.Forall₂ List.Sublist ps qs) : (join sep ps).Sublist (join sep qs) := by
  induction h with
  | nil => exact List.Sublist.refl _
  | cons hpq hmore ih =>
    cases hmore with
    | nil => exact hpq
    | cons _ _ => exact (hpq.append (List.Sublist.refl sep)).append ih

theorem LineByLine.sublist (h : LineByLine old new) : new.Sublist old := by
  rw [← join_pieces '\n' new, ← join_pieces '\n' old]
  exact join_sublist h

theorem lineByLine_of_sublist (h : new.Sublist old) (hcount : lineFeeds new = lineFeeds old) :
    LineByLine old new := by
  induction h with
  | slnil => exact .cons (List.Sublist.refl _) .nil
  | @cons new old c h ih =>
    -- the character left out is no line feed, since the rest cannot make up for it
    have hle : lineFeeds new ≤ lineFeeds old := h.count_le '\n'
    have hc : c ≠ '\n' := by
      rintro rfl
      rw [lineFeeds, lineFeeds, List.count_cons_self] at hcount
      rw [lineFeeds, lineFeeds] at hle
      omega
    have heq : lineFeeds (c :: old) = lineFeeds old := List.count_cons_of_ne hc
    obtain ⟨line, more, hold, hcons⟩ := pieces_cons_of_ne hc old
    have := ih (hcount.trans heq)
    rw [LineByLine, hold] at this
    obtain ⟨line', more', hline, hmore, hnew⟩ := List.forall₂_cons_right_iff.1 this
    rw [LineByLine, hcons, hnew]
    exact .cons (hline.cons c) hmore
  | @cons_cons new old c h ih =>
    by_cases hc : c = '\n'
    · subst hc
      rw [lineFeeds, lineFeeds, List.count_cons_self, List.count_cons_self] at hcount
      exact .cons (List.Sublist.refl _) (ih (Nat.succ.inj hcount))
    · rw [lineFeeds, lineFeeds, List.count_cons_of_ne hc, List.count_cons_of_ne hc] at hcount
      obtain ⟨line, more, hold, hcons⟩ := pieces_cons_of_ne hc old
      obtain ⟨line', more', hnew, hcons'⟩ := pieces_cons_of_ne hc new
      have := ih hcount
      rw [LineByLine, hold, hnew] at this
      rw [LineByLine, hcons, hcons']
      obtain ⟨hline, hmore⟩ := List.forall₂_cons.1 this
      exact .cons (hline.cons_cons c) hmore

/-- Characters are left out line by line if and only if no line feed is among them. -/
theorem lineByLine_iff : LineByLine old new ↔ new.Sublist old ∧ lineFeeds new = lineFeeds old :=
  ⟨fun h => ⟨h.sublist, h.lineFeeds_eq⟩, fun h => lineByLine_of_sublist h.1 h.2⟩

theorem LineByLine.refl (code : List Char) : LineByLine code code :=
  lineByLine_of_sublist (List.Sublist.refl _) rfl

theorem LineByLine.trans {a b c : List Char} (hab : LineByLine a b) (hbc : LineByLine b c) :
    LineByLine a c :=
  lineByLine_of_sublist (hbc.sublist.trans hab.sublist) (hbc.lineFeeds_eq.trans hab.lineFeeds_eq)

end CodeSurvey.Text
