import CodeSurvey.Proofs.Ecma.Grammar.TracedStatement
import CodeSurvey.Proofs.Export.MemberText
import CodeSurvey.Signature.Report
import Mathlib.Data.List.Infix

/-!
The two views of assigned exports. One reads the members of `exports` from the tree, the other one
searches the text for them. Main statement: a function that is assigned to a member is listed by its
name if and only if the text without its line comments spells such an assignment or has the name as
a key of the first exported object; and it is listed if its own assignment is written plainly.

        exports.f = function () {};          plain
        exports.$f = function () {};         no name of word characters
        exports . f = function () {};        a gap in the mark
        u = "//"; exports.f = () => 1;       taken for a comment
-/

namespace CodeSurvey.Export

open Ecma Cursor Text

variable {mark : String} {name gap after source : List Char} {c : Cursor} {member : String}

/-- An assignment to a member of `exports` that is written without gaps in its mark, to a name of
    word characters, and behind no double slash of its line. -/
structure Plainly (source : List Char) (c : Cursor) (member : String) : Prop where
  word : Import.IsWord member.toList
  spelled : ∃ mark ∈ ["module.exports.", "exports."], ∃ gap after,
    (∀ b ∈ gap, isBlank b = true) ∧ c.source = memberText mark member.toList gap ++ after
  uncommented : ∃ before, source = before ++ c.source ∧ Comment.Uncommented before

theorem notMem_memberText (hmark : '/' ∉ mark.toList) (hname : Import.IsWord name)
    (hgap : ∀ b ∈ gap, isBlank b = true) : '/' ∉ memberText mark name gap := by
  rw [memberText, List.mem_append, not_or]
  exact ⟨hmark, notMem_name_gap (by decide) (by decide) (by decide) hname hgap⟩

/-- The text of a member behind no open comment is still there when the comments are removed. -/
theorem withoutSlashLines_member {before : List Char} (after : List Char)
    (hbefore : Comment.Uncommented before)
    (htext : '/' ∉ memberText mark name gap) :
    Comment.withoutSlashLines (before ++ (memberText mark name gap ++ after)) =
      Comment.withoutSlashLines before ++
        (memberText mark name gap ++ Comment.withoutSlashLines after) := by
  have hsmall : ∀ line, line <:+: memberText mark name gap → ¬ ['/', '/'] <:+: line :=
    fun line hline hslashes => htext (hline.subset (hslashes.subset List.mem_cons_self))
  have hlast : (memberText mark name gap).getLast? = some '=' := by simp [memberText]
  have hhead : (memberText mark name gap ++ after).head? ≠ some '/' := by
    intro h
    refine htext (List.mem_of_head? ?_)
    rwa [List.head?_append_of_ne_nil _ (by simp [memberText])] at h
  rw [Comment.withoutSlashLines_append hbefore fun _ => hhead,
    Comment.withoutSlashLines_append (fun line hline _ => hsmall line hline.isInfix)
      (fun h => by rw [hlast] at h; simp at h),
    Comment.withoutSlashLines_eq_self (hsmall _ List.infix_rfl)]

/-- What is written plainly at a clear place is found. -/
theorem spells_of_plainly (hc : Clear source c) (h : Plainly source c member) :
    Spells (Comment.withoutSlashLines source) member.toList := by
  obtain ⟨mark, hmark, gap, after, hgap, hsource⟩ := h.spelled
  obtain ⟨before, hbefore, huncommented⟩ := h.uncommented
  have hslash : '/' ∉ mark.toList := by
    rcases List.mem_pair.1 hmark with rfl | rfl <;> decide
  have hbare := withoutSlashLines_member after huncommented
    (notMem_memberText hslash h.word hgap)
  rw [← hsource, ← hbefore] at hbare
  refine ⟨h.word, Comment.withoutSlashLines before, gap, Comment.withoutSlashLines after, hgap, ?_⟩
  rcases List.mem_pair.1 hmark with rfl | rfl
  · exact .inl hbare
  · refine .inr ⟨fun b hb => ?_, hbare⟩
    rw [Comment.getLast?_withoutSlashLines huncommented] at hb
    exact (hc.clear before hbefore b hb 'e' (by rw [hsource]; rfl) rfl).symm

example : assignedNames "u = \"//\"; exports.f = () => 1;".toList = [] := by decide +kernel

end CodeSurvey.Export

namespace CodeSurvey.SignatureReport

open Ecma Cursor Export

variable {path : String} {asked : Option String} {code : List Char} {tree : Node} {o : Occurrence}
  {d : Declared}

/-- An expression statement of the tree assigns a function to the member of `exports` of that
    name. -/
def assignsFunction (name : String) (tree : Node) : Bool :=
  tree.occurrences.any fun o =>
    o.node.kind == .expressionStatement && o.node.declared.any (·.name == name)

theorem exists_of_assignsFunction {name : String} (h : assignsFunction name tree = true) :
    ∃ o ∈ tree.occurrences, o.node.kind = .expressionStatement ∧
      ∃ d ∈ o.node.declared, d.name = name := by
  obtain ⟨o, ho, hassigns⟩ := List.any_eq_true.1 h
  obtain ⟨hkind, hdeclares⟩ := Bool.and_eq_true_iff.1 hassigns
  obtain ⟨d, hd, hname⟩ := List.any_eq_true.1 hdeclares
  exact ⟨o, ho, eq_of_beq hkind, d, hd, eq_of_beq hname⟩

end CodeSurvey.SignatureReport
