import CodeSurvey.Distinct
import CodeSurvey.Export.Assigned
import CodeSurvey.Proofs.Comment
import CodeSurvey.Proofs.Import.ModuleList
import CodeSurvey.Proofs.Pattern.Ahead
import CodeSurvey.Proofs.Pattern.Replace

/-!
Members of `exports` in the text. A member is spelled with one of two marks, a name and a sign of
assignment. A mark holds a dot, which neither a name nor a blank is, and no end of a mark is a
beginning of it; so no spelling reaches into another one, and the search misses none. Main
statement: the names that are listed are those that the bare text spells, and the keys of the first
exported object.

        module.exports.f = ..        mark  module.exports.   name  f
-/

namespace CodeSurvey.Export

open Pattern Text

variable {mark : String} {name gap after text : List Char} {r : Reading} {m : Match} {p : Pattern}
  {guard : Option Char → Bool} {code : List Char}

/-! ### One member -/

/-- A member behind a mark, with a sign of assignment; group 1 is the name. -/
def member (mark : String) : Pattern := seq [lit mark, group 1 word, blanks, lit "="]

/-- A mark, a name, blanks and a sign of assignment. -/
def memberText (mark : String) (name gap : List Char) : List Char :=
  mark.toList ++ (name ++ (gap ++ ['=']))

theorem isWordChar_of_isBlank_head (hgap : ∀ c ∈ gap, isBlank c = true) :
    ∀ c ∈ (gap ++ '=' :: after).head?, isWordChar c = false := by
  intro c hc
  cases gap with
  | nil =>
    obtain rfl := Option.some.inj hc
    decide
  | cons d gap =>
    obtain rfl := Option.some.inj hc
    exact Import.isWordChar_of_isBlank (hgap d List.mem_cons_self)

theorem leads_member (hname : Import.IsWord name) (hgap : ∀ c ∈ gap, isBlank c = true) :
    Leads (member mark) (memberText mark name gap ++ after) after
      [⟨1, name ++ (gap ++ '=' :: after), name.length⟩] := by
  have hsign : Leads (lit "=") ('=' :: after) after [] := .lit "=" after
  have hblanks : Leads blanks (gap ++ '=' :: after) ('=' :: after) [] :=
    .many hgap (Nat.zero_le _) (stops_of_rest (r := .atStart _) rfl (by decide))
  have hword : Leads (group 1 word) (name ++ (gap ++ '=' :: after)) (gap ++ '=' :: after)
      [⟨1, name ++ (gap ++ '=' :: after), name.length⟩] :=
    .group (.many hname.2 (List.length_pos_iff.2 hname.1) (isWordChar_of_isBlank_head hgap))
  have htext : memberText mark name gap ++ after =
      mark.toList ++ (name ++ (gap ++ '=' :: after)) := by simp [memberText]
  rw [htext]
  exact (Leads.lit mark _).cat (hword.cat (hblanks.cat hsign))

/-- What matches at a place where a member is spelled. -/
theorem exists_matchAt?_member (hname : Import.IsWord name) (hgap : ∀ c ∈ gap, isBlank c = true)
    (hr : r.rest = memberText mark name gap ++ after) :
    ∃ m, matchAt? (member mark) r = some m ∧ m.group 1 = name ∧
      m.length = (memberText mark name gap).length := by
  obtain ⟨cs, r', hfirst, hrest, hcaps⟩ := leads_member hname hgap r hr
  have hcs : cs = memberText mark name gap := by
    have heq := hfirst.reads.rest_eq
    rw [hr, hrest] at heq
    exact (List.append_cancel_right heq).symm
  exact ⟨_, hfirst.matchAt?_eq, Match.group_eq hcaps, by rw [hcs]; rfl⟩

theorem exists_of_matchAt?_member (h : matchAt? (member mark) r = some m) :
    ∃ name gap after, Import.IsWord name ∧ (∀ c ∈ gap, isBlank c = true) ∧
      r.rest = memberText mark name gap ++ after := by
  obtain ⟨r', hreads, -⟩ := reads_of_matchAt h
  have hleaves : Leaves (member mark) r.rest r'.rest := ⟨r, _, r', rfl, hreads, rfl⟩
  obtain ⟨_, hmark, hleaves⟩ := hleaves.cat_inv
  obtain ⟨_, hword, hleaves⟩ := hleaves.cat_inv
  obtain ⟨_, hblanks, hsign⟩ := hleaves.cat_inv
  obtain ⟨name, hname, hmem, hsome⟩ := hword.group_inv.many_inv
  obtain ⟨gap, hgap, hblank, -⟩ := hblanks.many_inv
  refine ⟨name, gap, r'.rest, ⟨List.length_pos_iff.1 hsome, hmem⟩, hblank, ?_⟩
  rw [hmark.lit_inv, hname, hgap, hsign.lit_inv]
  simp [memberText]

/-! ### Members that do not overlap -/

/-- A mark holds a dot and no sign of assignment, and no end of it is a beginning of it. -/
structure IsMark (mark : List Char) : Prop where
  dot : '.' ∈ mark
  sign : '=' ∉ mark
  borderless : ∀ n < mark.length, 0 < n → ¬ mark.drop n <+: mark

/-- Behind a mark there are word characters, blanks and the sign only. -/
theorem notMem_name_gap {b : Char} (hword : ¬ isWordChar b = true) (hblank : ¬ isBlank b = true)
    (hsign : b ≠ '=') (hname : Import.IsWord name) (hgap : ∀ c ∈ gap, isBlank c = true) :
    b ∉ name ++ (gap ++ ['=']) := by
  simp only [List.mem_append, List.mem_singleton, not_or]
  exact ⟨fun h => hword (hname.2 b h), fun h => hblank (hgap b h), hsign⟩

/-- Where another mark begins behind its first character, a member has come to its end. -/
theorem length_memberText_le (hmark : IsMark mark.toList) (hname : Import.IsWord name)
    (hgap : ∀ c ∈ gap, isBlank c = true) {front rest : List Char} (hfront : front ≠ [])
    (h : memberText mark name gap ++ after = front ++ (mark.toList ++ rest)) :
    (memberText mark name gap).length ≤ front.length := by
  by_contra hlong
  obtain ⟨behind, hbehind⟩ : front <+: memberText mark name gap :=
    List.prefix_of_prefix_length_le ⟨_, h.symm⟩ (List.prefix_append _ after) (by omega)
  rw [← hbehind, List.append_assoc] at h
  replace h : behind ++ after = mark.toList ++ rest := List.append_cancel_left h
  have hne : behind ≠ [] := by
    rintro rfl
    rw [List.append_nil] at hbehind
    exact hlong (Nat.le_of_eq (congrArg List.length hbehind.symm))
  -- behind the mark there is no dot, so the other mark cannot begin there
  have hmissing : ¬ behind <:+ name ++ (gap ++ ['=']) := by
    rintro ⟨done, hdone⟩
    have hsign : '=' ∈ behind := by
      have hlast : (name ++ (gap ++ ['='])).getLast? = some '=' := by simp
      rw [← hdone, List.getLast?_append_of_ne_nil done hne] at hlast
      exact List.mem_of_getLast? hlast
    have hdot : '.' ∉ behind := fun hmem =>
      notMem_name_gap (by decide) (by decide) (by decide) hname hgap
        (hdone ▸ List.mem_append_right done hmem)
    rcases List.append_eq_append_iff.1 h with ⟨more, hmore, -⟩ | ⟨more, hmore, -⟩
    · exact hmark.sign (hmore ▸ List.mem_append_left more hsign)
    · exact hdot (hmore ▸ List.mem_append_left more hmark.dot)
  rcases List.append_eq_append_iff.1 hbehind with ⟨inside, hinside, hrest⟩ | ⟨done, -, hrest⟩
  · by_cases hnil : inside = []
    · rw [hnil, List.nil_append] at hrest
      exact hmissing (hrest ▸ List.suffix_rfl)
    · -- the other mark begins inside the mark
      have hlength : mark.toList.length = front.length + inside.length := by
        rw [hinside, List.length_append]
      have hdrop : mark.toList.drop front.length = inside := by
        rw [hinside]
        exact List.drop_left' rfl
      have hpos := List.length_pos_iff.2 hnil
      refine hmark.borderless front.length (by omega) (List.length_pos_iff.2 hfront) ?_
      have hhere : inside <+: behind ++ after := by
        rw [hrest, List.append_assoc]
        exact List.prefix_append _ _
      have hmark' : mark.toList <+: behind ++ after := h ▸ List.prefix_append _ _
      rw [hdrop]
      exact List.prefix_of_prefix_length_le hhere hmark' (by omega)
  · exact hmissing ⟨done, hrest.symm⟩

/-! ### All members -/

/-- The pattern finds members behind a mark, unless a guard keeps it from what stands in front. -/
def Seeks (p : Pattern) (mark : String) (guard : Option Char → Bool) : Prop :=
  ∀ r, matchAt? p r = if guard r.before then matchAt? (member mark) r else none

theorem seeks_memberOfModule : Seeks memberOfModule "module.exports." fun _ => true :=
  fun _ => rfl

theorem seeks_memberOfExports : Seeks memberOfExports "exports." fun before =>
    !before.any fun c => c == '.' || isWordChar c := by
  intro r
  have hrun : matchAt? memberOfExports r =
      if r.before.any fun c => c == '.' || isWordChar c then none
      else matchAt? (member "exports.") r := rfl
  rw [hrun]
  by_cases hstands : (r.before.any fun c => c == '.' || isWordChar c) = true <;> simp [hstands]

theorem free_iff {before : Option Char} :
    (!before.any fun c => c == '.' || isWordChar c) = true ↔
      ∀ c ∈ before, c ≠ '.' ∧ isWordChar c = false := by
  cases before <;> simp

theorem before_of_passes {cs : List Char} (h : Passes (.atStart text) cs r) :
    r.before = cs.getLast? := by
  rcases List.eq_nil_or_concat cs with rfl | ⟨front, c, rfl⟩
  · cases h
    rfl
  · rw [List.concat_eq_append] at h ⊢
    rw [h.before_eq, List.getLast?_concat]

/-- The names that are found are those of the members that stand somewhere in the text. -/
theorem Seeks.mem_groups_iff (h : Seeks p mark guard) (hmark : IsMark mark.toList) :
    name ∈ (p.findAll text).map (·.group 1) ↔ Import.IsWord name ∧ ∃ before gap after,
      (∀ c ∈ gap, isBlank c = true) ∧ guard before.getLast? = true ∧
        text = before ++ (memberText mark name gap ++ after) := by
  constructor
  · intro hmem
    obtain ⟨m, hm, rfl⟩ := List.mem_map.1 hmem
    obtain ⟨before, r, hpasses, hmatch⟩ := exists_place_of_mem_findAll hm
    rw [h r] at hmatch
    split at hmatch
    · rename_i hguard
      obtain ⟨name, gap, after, hname, hgap, hr⟩ := exists_of_matchAt?_member hmatch
      obtain ⟨m', hmatch', hgroup, -⟩ := exists_matchAt?_member hname hgap hr
      obtain rfl := Option.some.inj (hmatch.symm.trans hmatch')
      rw [hgroup]
      refine ⟨hname, before, gap, after, hgap, by rwa [← before_of_passes hpasses], ?_⟩
      rw [← hr]
      exact hpasses.rest_eq
    · cases hmatch
  · rintro ⟨hname, before, gap, after, hgap, hguard, htext⟩
    obtain ⟨r, hpasses, hr⟩ := exists_passes (show (Reading.atStart text).rest = _ from htext)
    obtain ⟨m, hmatch, hgroup, -⟩ := exists_matchAt?_member hname hgap hr
    have hhere : matchAt? p r = some m := by
      rw [h r, before_of_passes hpasses, if_pos hguard, hmatch]
    have hne : r.rest ≠ [] := by
      rw [hr]
      simp [memberText]
    refine List.mem_map.2 ⟨m, mem_findAll hpasses hhere hne fun ds s m' hds hne' hearlier => ?_,
      hgroup⟩
    rw [h s] at hearlier
    split at hearlier
    · obtain ⟨name', gap', after', hname', hgap', hs⟩ := exists_of_matchAt?_member hearlier
      obtain ⟨_, hagain, -, hlength⟩ := exists_matchAt?_member hname' hgap' hs
      obtain rfl := Option.some.inj (hearlier.symm.trans hagain)
      have htexts : memberText mark name' gap' ++ after' =
          ds ++ (mark.toList ++ (name ++ (gap ++ '=' :: after))) := by
        rw [← hs, hds.rest_eq, hr]
        simp [memberText]
      rw [hlength]
      exact length_memberText_le hmark hname' hgap' hne' htexts
    · cases hearlier

/-! ### The names that are listed -/

/-- The text spells an assignment to the member of `exports` of that name. -/
def Spells (text name : List Char) : Prop :=
  Import.IsWord name ∧ ∃ before gap after, (∀ c ∈ gap, isBlank c = true) ∧
    (text = before ++ (memberText "module.exports." name gap ++ after) ∨
      (∀ c ∈ before.getLast?, c ≠ '.' ∧ isWordChar c = false) ∧
        text = before ++ (memberText "exports." name gap ++ after))

/-- The keys of the first object that a text assigns to `module.exports`. -/
def firstObjectKeys (text : List Char) : List (List Char) :=
  (exportedObject.first? text).elim [] fun m =>
    (pieces ',' (m.group 1)).filterMap fun entry =>
      (objectKey.matchStart? entry).map (·.group 1)

/-- A name is listed if and only if the text without its line comments spells an assignment to it,
    or it is a key of the first exported object. -/
theorem mem_assignedNames_iff : String.ofList name ∈ assignedNames code ↔
    Spells (Comment.withoutSlashLines code) name ∨
      name ∈ firstObjectKeys (Comment.withoutSlashLines code) := by
  have hlisted : String.ofList name ∈ assignedNames code ↔
      (name ∈ (memberOfModule.findAll (Comment.withoutSlashLines code)).map (·.group 1) ∨
        name ∈ (memberOfExports.findAll (Comment.withoutSlashLines code)).map (·.group 1)) ∨
        name ∈ firstObjectKeys (Comment.withoutSlashLines code) := by
    have hsame : ∀ names : List (List Char),
        String.ofList name ∈ names.map String.ofList ↔ name ∈ names := fun names =>
      List.mem_map_of_injective fun _ _ => String.ofList_inj.1
    rw [← List.mem_append, ← List.map_append, ← List.mem_append, ← hsame,
      ← Comment.dropKind_slashLine]
    exact List.mem_eraseDups
  have hmodule : IsMark "module.exports.".toList := ⟨by decide, by decide, by decide⟩
  have hexports : IsMark "exports.".toList := ⟨by decide, by decide, by decide⟩
  rw [hlisted, seeks_memberOfModule.mem_groups_iff hmodule,
    seeks_memberOfExports.mem_groups_iff hexports]
  refine or_congr_left ?_
  simp only [Spells, ← and_or_left, ← exists_or, free_iff, true_and]

end CodeSurvey.Export
