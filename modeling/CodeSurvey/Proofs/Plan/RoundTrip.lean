import CodeSurvey.Plan.Document
import CodeSurvey.Proofs.Pattern.Shortest
import CodeSurvey.Proofs.Text.Pieces

/-!
Plans read back. Each task of a written plan is a block with its type in the opening tag and five
elements, with free text before, between and behind the elements and the blocks. Main statement: a
plan that is written as blocks is read as its tasks, in their order, whatever untagged text stands
around the blocks and around the elements in them.
-/

namespace CodeSurvey.Plan

/-- No tag begins in the text. -/
def Untagged (s : List Char) : Prop := '<' ∉ s

instance (s : List Char) : Decidable (Untagged s) := inferInstanceAs (Decidable ('<' ∉ s))

/-- The elements of a block. -/
inductive Field where
  | name
  | files
  | action
  | verify
  | outcome
  deriving DecidableEq, Repr

namespace Field

/-- The elements in the order in which they are written. -/
def all : List Field := [name, files, action, verify, outcome]

theorem mem_all (f : Field) : f ∈ all := by cases f <;> decide

/-- The name between the angle brackets. -/
def tag : Field → String
  | name => "name"
  | files => "files"
  | action => "action"
  | verify => "verify"
  | outcome => "done"

/-- What stands in the element of a task. -/
def content (t : Task) : Field → List Char
  | name => t.name.toList
  | files => Text.join [',', ' '] (t.files.map String.toList)
  | action => t.action.toList
  | verify => t.verify.toList
  | outcome => t.outcome.toList

end Field

/-- A text that can stand in an element: no tag begins in it and no blanks stand around it. -/
structure IsContent (s : List Char) : Prop where
  untagged : Untagged s
  trimmed : Text.trim s = s

instance (s : List Char) : Decidable (IsContent s) :=
  decidable_of_iff (Untagged s ∧ Text.trim s = s)
    ⟨fun ⟨huntagged, htrimmed⟩ => ⟨huntagged, htrimmed⟩, fun h => ⟨h.untagged, h.trimmed⟩⟩

/-- A file that can stand on a list with commas. -/
structure IsListed (file : String) : Prop where
  ne_empty : file ≠ ""
  noComma : ',' ∉ file.toList
  isContent : IsContent file.toList

instance (file : String) : Decidable (IsListed file) :=
  decidable_of_iff (file ≠ "" ∧ ',' ∉ file.toList ∧ IsContent file.toList)
    ⟨fun ⟨hne, hcomma, hcontent⟩ => ⟨hne, hcomma, hcontent⟩,
      fun h => ⟨h.ne_empty, h.noComma, h.isContent⟩⟩

/-- A task that can be written as a block. -/
structure Task.IsWritable (t : Task) : Prop where
  noQuote : '"' ∉ t.kind.toList
  named : t.name ≠ ""
  files : ∀ file ∈ t.files, IsListed file
  name : IsContent t.name.toList
  action : IsContent t.action.toList
  verify : IsContent t.verify.toList
  outcome : IsContent t.outcome.toList

/-- A task with the free text in its block and behind it. -/
structure WrittenTask where
  task : Task
  isWritable : task.IsWritable
  /-- The text before the first element. -/
  lead : List Char
  untagged_lead : Untagged lead
  /-- The text behind each element. -/
  gap : Field → List Char
  untagged_gap : ∀ f, Untagged (gap f)
  /-- The text behind the block. -/
  behind : List Char
  untagged_behind : Untagged behind

/-- An element. -/
def elementText (tag : String) (content : List Char) : List Char :=
  '<' :: (tag.toList ++ '>' :: content) ++ '<' :: '/' :: (tag.toList ++ ['>'])

/-- Elements with the text behind each of them. -/
def elementsText (content gap : Field → List Char) (fs : List Field) : List Char :=
  fs.flatMap fun f => elementText f.tag (content f) ++ gap f

namespace WrittenTask

/-- What stands between the tags of the block. -/
def inside (w : WrittenTask) : List Char :=
  w.lead ++ elementsText (Field.content w.task) w.gap Field.all

def block (w : WrittenTask) : List Char :=
  "<task type=\"".toList ++ w.task.kind.toList ++ "\">".toList ++ w.inside ++ "</task>".toList

/-- The task with its type; without one it does itself. -/
def read (w : WrittenTask) : Task :=
  { w.task with kind := if w.task.kind = "" then "auto" else w.task.kind }

end WrittenTask

/-- A plan with the text before its first task. -/
structure WrittenPlan where
  front : List Char
  untagged : Untagged front
  tasks : List WrittenTask

def WrittenPlan.text (p : WrittenPlan) : List Char :=
  p.front ++ p.tasks.flatMap fun w => w.block ++ w.behind

/-! ### Reading back -/

open Pattern

variable {r r' s : Reading} {cs rest lead : List Char} {content gap : Field → List Char}
  {f : Field} {fs : List Field}

/-! ### Tags -/

theorem startsWith_elementBlock (tag : String) : StartsWith '<' (elementBlock tag) :=
  (StartsWith.text '<' []).cat

namespace Field

/-- The letter that the name of an element begins with. -/
def initial : Field → Char
  | name => 'n'
  | files => 'f'
  | action => 'a'
  | verify => 'v'
  | outcome => 'd'

theorem exists_tag_eq (f : Field) : ∃ more, f.tag.toList = f.initial :: more := by
  cases f <;> exact ⟨_, rfl⟩

theorem untagged_tag (f : Field) : Untagged f.tag.toList := by cases f <;> decide

theorem countsAs_self (f : Field) : ∀ c ∈ f.tag.toList, countsAs c c = true := by
  rw [← List.all_eq_true]
  cases f <;> rfl

theorem countsAs_slash (f : Field) : countsAs f.initial '/' = false := by cases f <;> decide

/-- No two elements begin with the same letter, in any case. -/
theorem countsAs_initial {g : Field} (h : g ≠ f) : countsAs f.initial g.initial = false := by
  cases f <;> cases g <;> first | exact absurd rfl h | decide

end Field

/-- Where another letter or a slash stands behind the bracket an element is not read. -/
theorem fails_elementBlock {d : Char} (hs : s.rest = '<' :: d :: rest)
    (hd : countsAs f.initial d = false) : Fails (elementBlock f.tag) s := by
  intro cs s' hreads
  obtain ⟨s₁, _, _, hopen, hmore⟩ := exists_of_reads_cat hreads
  obtain ⟨s₂, _, _, hname, -⟩ := exists_of_reads_cat hmore
  obtain ⟨more, htag⟩ := f.exists_tag_eq
  have hs₁ : s₁.rest = d :: rest := by
    have := (passes_of_reads_text hopen).rest_eq
    rw [hs] at this
    exact (List.cons.inj this).2.symm
  rw [countsAs_of_reads_anyCase hname htag hs₁] at hd
  exact absurd hd (by decide)

/-- A pattern that fails at both tags of an element fails all through it. -/
theorem misses_elementText {p : Pattern} {inside : List Char} (starts : StartsWith '<' p)
    (hopen : ∀ s rest, s.rest = '<' :: (f.tag.toList ++ rest) → Fails p s)
    (hclose : ∀ s rest, s.rest = '<' :: '/' :: (f.tag.toList ++ rest) → Fails p s)
    (hinside : Untagged inside) : Misses p (elementText f.tag inside) rest := by
  have htag := f.untagged_tag
  refine .append (.cons (fun s hs => ?_) (starts.misses ?_))
    (.cons (fun s hs => ?_) (starts.misses ?_))
  · exact hopen s _ (by simpa only [List.append_assoc] using hs)
  · simp_all [Untagged]
  · exact hclose s _ (by simpa only [List.cons_append, List.append_assoc] using hs)
  · simp_all [Untagged]

theorem misses_elementsText {p : Pattern} (starts : StartsWith '<' p)
    (hopen : ∀ f ∈ fs, ∀ s rest, s.rest = '<' :: (f.tag.toList ++ rest) → Fails p s)
    (hclose : ∀ f ∈ fs, ∀ s rest, s.rest = '<' :: '/' :: (f.tag.toList ++ rest) → Fails p s)
    (hcontent : ∀ f, Untagged (content f)) (hgap : ∀ f, Untagged (gap f)) :
    Misses p (elementsText content gap fs) rest := by
  induction fs with
  | nil => exact misses_nil
  | cons f fs ih =>
    obtain ⟨hopen, hopens⟩ := List.forall_mem_cons.1 hopen
    obtain ⟨hclose, hcloses⟩ := List.forall_mem_cons.1 hclose
    exact ((misses_elementText starts hopen hclose (hcontent f)).append
      (starts.misses (hgap f))).append (ih hopens hcloses)

/-! ### The first element of a name -/

/-- An element is read up to the first tag behind its content. -/
theorem readsFirst_elementBlock {inside : List Char} (hinside : Untagged inside)
    (hr : r.rest = elementText f.tag inside ++ rest) :
    ∃ cs r', ReadsFirst (elementBlock f.tag) r cs r' ∧
      r'.captures = ⟨1, inside ++ ('<' :: '/' :: (f.tag.toList ++ '>' :: rest)), inside.length⟩ ::
        r.captures := by
  have hopening : r.rest = ['<'] ++ (f.tag.toList ++ ('>' :: (inside ++
      ('<' :: '/' :: (f.tag.toList ++ '>' :: rest))))) := by
    rw [hr]
    simp [elementText]
  obtain ⟨r₁, h₁, hr₁⟩ := exists_passes hopening
  obtain ⟨r₂, h₂, hr₂⟩ := exists_passes hr₁
  obtain ⟨r₃, h₃, hr₃⟩ := exists_passes (show r₂.rest = ['>'] ++ _ from hr₂)
  obtain ⟨r₄, h₄, hr₄⟩ := exists_passes hr₃
  obtain ⟨r₅, h₅, hr₅⟩ := exists_passes (show (r₃.remember 1 r₄).rest = ['<', '/'] ++ _ from hr₄)
  obtain ⟨r₆, h₆, hr₆⟩ := exists_passes hr₅
  obtain ⟨r₇, h₇, -⟩ := exists_passes (show r₆.rest = ['>'] ++ _ from hr₆)
  have hclosing : StartsWith '<' (seq [lit "</", anyCase f.tag, lit ">"]) :=
    (StartsWith.text '<' ['/']).cat
  refine ⟨_, r₇, (ReadsFirst.text h₁).cat <| (ReadsFirst.anyCase h₂ f.countsAs_self).cat <|
    (ReadsFirst.text h₃).cat <| .groupMissing h₄ (fun _ _ => rfl) (hclosing.misses hinside) <|
    (ReadsFirst.text h₅).cat <| (ReadsFirst.anyCase h₆ f.countsAs_self).cat (.text h₇), ?_⟩
  rw [h₇.captures_eq, h₆.captures_eq, h₅.captures_eq, h₄.captures_remember, hr₄, h₃.captures_eq,
    h₂.captures_eq, h₁.captures_eq]

/-- The element of a name is found among elements of other names. -/
theorem element?_elementsText (hf : f ∈ fs) (hlead : Untagged lead)
    (hcontent : ∀ f, Untagged (content f)) (hgap : ∀ f, Untagged (gap f)) :
    element? f.tag (lead ++ elementsText content gap fs) = some (Text.trim (content f)) := by
  obtain ⟨us, vs, rfl, hus⟩ := List.eq_append_cons_of_mem hf
  let behind := gap f ++ elementsText content gap vs
  have htext : lead ++ elementsText content gap (us ++ f :: vs) =
      lead ++ elementsText content gap us ++ (elementText f.tag (content f) ++ behind) := by
    simp [elementsText, behind]
  obtain ⟨r₁, h₁, hr₁⟩ := exists_passes
    (r := .atStart (lead ++ elementsText content gap (us ++ f :: vs))) htext
  obtain ⟨cs, r', hread, hcaptures⟩ := readsFirst_elementBlock (hcontent f) hr₁
  have starts := startsWith_elementBlock f.tag
  have hmisses : Misses (elementBlock f.tag) (lead ++ elementsText content gap us) r₁.rest := by
    refine (starts.misses hlead).append (misses_elementsText starts ?_ ?_ hcontent hgap)
    · intro g hg s rest hs
      obtain ⟨more, htag⟩ := g.exists_tag_eq
      rw [htag, List.cons_append] at hs
      exact fails_elementBlock hs (f.countsAs_initial fun heq => hus (heq ▸ hg))
    · exact fun g _ s rest hs => fails_elementBlock hs f.countsAs_slash
  rw [element?, first?_eq h₁ hmisses hread (by rw [hr₁]; simp [elementText]), Option.map_some,
    Match.group_eq hcaptures]

/-! ### Tasks as their blocks have them -/

theorem Task.IsWritable.isContent {t : Task} (h : t.IsWritable) (f : Field) :
    IsContent (f.content t) := by
  cases f with
  | name => exact h.name
  | action => exact h.action
  | verify => exact h.verify
  | outcome => exact h.outcome
  | files =>
    refine ⟨fun hmem => ?_, Text.trim_join _ (List.forall_mem_map.2 fun file hfile => ?_)⟩
    · rcases Text.mem_join hmem with hmem | ⟨p, hp, hmem⟩
      · exact absurd hmem (by decide)
      · obtain ⟨file, hfile, rfl⟩ := List.mem_map.1 hp
        exact (h.files file hfile).isContent.untagged hmem
    · exact ⟨by simpa using (h.files file hfile).ne_empty, (h.files file hfile).isContent.trimmed⟩

/-- Files joined by commas and blanks are listed again. -/
theorem filesIn_join {files : List String} (h : ∀ file ∈ files, IsListed file) :
    filesIn (Text.join [',', ' '] (files.map String.toList)) = files := by
  cases files with
  | nil => rfl
  | cons file more =>
    have hcommas : ∀ p ∈ file.toList :: (more.map String.toList).map (' ' :: ·), ',' ∉ p := by
      have := fun other hother => (h other hother).noComma
      simpa using this
    have htrim : (file.toList :: (more.map String.toList).map (' ' :: ·)).map Text.trim =
        (file :: more).map String.toList := by
      have hself : ∀ other ∈ file :: more, Text.trim other.toList = other.toList :=
        fun other hother => (h other hother).isContent.trimmed
      simp only [List.map_cons, List.map_map, Function.comp_def,
        Text.trim_cons_of_blank (c := ' ') rfl]
      exact List.map_congr_left hself
    have hnamed : ((file :: more).map String.toList).filter (· != []) =
        (file :: more).map String.toList := by
      refine List.filter_eq_self.2 (List.forall_mem_map.2 fun other hother => ?_)
      simpa using (h other hother).ne_empty
    rw [filesIn, List.map_cons, Text.join_pair, Text.pieces_join (List.cons_ne_nil _ _) hcommas,
      htrim, hnamed, List.map_map]
    simp [Function.comp_def]

/-- An element that is found gives its text, unless it is empty and the other text is not. -/
theorem elementOr_eq {tag other : String} {inside found : List Char}
    (h : element? tag inside = some found) (hother : found = [] → other = "") :
    elementOr tag other inside = String.ofList found := by
  rw [elementOr, h]
  cases found with
  | nil => exact hother rfl
  | cons c rest => rfl

theorem WrittenTask.element?_inside (w : WrittenTask) (f : Field) :
    element? f.tag w.inside = some (f.content w.task) := by
  have hcontent := w.isWritable.isContent
  rw [inside, element?_elementsText f.mem_all w.untagged_lead (fun g => (hcontent g).untagged)
    w.untagged_gap, (hcontent f).trimmed]

/-- What is read from the block of a task. -/
theorem WrittenTask.ofBlock_eq (w : WrittenTask) {m : Match}
    (hkind : m.group 1 = w.task.kind.toList) (hinside : m.group 2 = w.inside) :
    Task.ofBlock m = w.read := by
  have hname : elementOr "name" "Unnamed Task" w.inside = w.task.name :=
    (elementOr_eq (w.element?_inside .name) fun h => absurd (String.toList_eq_nil_iff.1 h)
      w.isWritable.named).trans String.ofList_toList
  have hfiles : filesIn ((element? "files" w.inside).getD []) = w.task.files := by
    rw [show element? "files" w.inside = _ from w.element?_inside .files]
    exact filesIn_join w.isWritable.files
  have haction : elementOr "action" "" w.inside = w.task.action :=
    (elementOr_eq (w.element?_inside .action) fun _ => rfl).trans String.ofList_toList
  have hverify : elementOr "verify" "" w.inside = w.task.verify :=
    (elementOr_eq (w.element?_inside .verify) fun _ => rfl).trans String.ofList_toList
  have houtcome : elementOr "done" "" w.inside = w.task.outcome :=
    (elementOr_eq (w.element?_inside .outcome) fun _ => rfl).trans String.ofList_toList
  rw [Task.ofBlock, hinside, hkind, hname, hfiles, haction, hverify, houtcome, read]
  simp

/-! ### Blocks -/

theorem startsWith_taskBlock : StartsWith '<' taskBlock := (StartsWith.text '<' "task".toList).cat

/-- The closing tag of a block stands nowhere in its inside. -/
theorem WrittenTask.misses_inside (w : WrittenTask) : Misses (lit "</task>") w.inside rest := by
  have starts : StartsWith '<' (lit "</task>") := .text '<' "/task>".toList
  have hcontent := fun f => (w.isWritable.isContent f).untagged
  refine (starts.misses w.untagged_lead).append
    (misses_elementsText starts (fun f _ s rest hs => .text ?_) (fun f _ s rest hs => .text ?_)
      hcontent w.untagged_gap)
  all_goals
    rw [hs]
    cases f <;> simp [Field.tag]

theorem WrittenTask.block_append (w : WrittenTask) (rest : List Char) :
    w.block ++ rest = "<task".toList ++ ' ' :: 't' :: ("ype=\"".toList ++ (w.task.kind.toList ++
      ('"' :: '>' :: (w.inside ++ ("</task>".toList ++ rest))))) := by
  have hblock : w.block = ("<task".toList ++ ' ' :: 't' :: "ype=\"".toList) ++ w.task.kind.toList ++
      ['"', '>'] ++ w.inside ++ "</task>".toList := rfl
  rw [hblock]
  simp only [List.append_assoc, List.cons_append, List.nil_append]

/-- A block is read up to its own closing tag. -/
theorem WrittenTask.readsFirst_taskBlock (w : WrittenTask) (hr : r.rest = w.block ++ rest) :
    ∃ cs r', ReadsFirst taskBlock r cs r' ∧ cs ≠ [] ∧ r'.rest = rest ∧
      (matchOf r cs r').group 1 = w.task.kind.toList ∧ (matchOf r cs r').group 2 = w.inside := by
  obtain ⟨r₁, h₁, hr₁⟩ := exists_passes (hr.trans (w.block_append rest))
  obtain ⟨r₂, h₂, hr₂⟩ := exists_passes (show r₁.rest = [' '] ++ _ from hr₁)
  obtain ⟨r₃, h₃, hr₃⟩ := exists_passes (show r₂.rest = "type=\"".toList ++ _ from hr₂)
  obtain ⟨r₄, h₄, hr₄⟩ := exists_passes hr₃
  obtain ⟨r₅, h₅, hr₅⟩ := exists_passes (show (r₃.remember 1 r₄).rest = ['"'] ++ _ from hr₄)
  obtain ⟨r₆, h₆, hr₆⟩ := exists_passes (show r₅.rest = ['>'] ++ _ from hr₅)
  obtain ⟨r₇, h₇, hr₇⟩ := exists_passes hr₆
  obtain ⟨r₈, h₈, hr₈⟩ :=
    exists_passes (show (r₆.remember 2 r₇).rest = "</task>".toList ++ _ from hr₇)
  have hkind : ∀ c ∈ w.task.kind.toList, (!(c == '"')) = true := fun c hc => by
    rw [Bool.not_eq_true', beq_eq_false_iff_ne]
    exact fun heq => w.isWritable.noQuote (heq ▸ hc)
  have hread : ReadsFirst taskBlock r _ r₈ :=
    (ReadsFirst.text h₁).cat <| (ReadsFirst.oneBlank h₂ hr₂ rfl).cat <| (ReadsFirst.text h₃).cat <|
    (ReadsFirst.group (.manyLongest h₄ hkind (Nat.zero_le _) (stops_of_rest hr₄ rfl))).cat <|
    (ReadsFirst.text h₅).cat <|
    (ReadsFirst.manyLongest .stay (by simp) (Nat.zero_le _) (stops_of_rest hr₅ rfl)).cat <|
    (ReadsFirst.text h₆).cat <| .groupMissing h₇ (fun _ _ => rfl) w.misses_inside (.text h₈)
  have hcaptures : r₈.captures = ⟨2, w.inside ++ r₇.rest, w.inside.length⟩ ::
      ⟨1, w.task.kind.toList ++ r₄.rest, w.task.kind.toList.length⟩ :: r.captures := by
    rw [h₈.captures_eq, h₇.captures_remember, h₆.captures_eq, h₅.captures_eq, h₄.captures_remember,
      h₃.captures_eq, h₂.captures_eq, h₁.captures_eq]
  refine ⟨_, r₈, hread, by simp, hr₈, Match.group_of_find? (t := r₄.rest) ?_,
    Match.group_eq hcaptures⟩
  show r₈.captures.find? _ = _
  rw [hcaptures]
  rfl

/-- The blocks are found one after another. -/
theorem exists_scans_taskBlock (ws : List WrittenTask)
    (hr : r.rest = ws.flatMap fun w => w.block ++ w.behind) :
    ∃ ms out, Scans taskBlock Match.text r ms out ∧
      ms.map Task.ofBlock = ws.map WrittenTask.read := by
  induction ws generalizing r with
  | nil => exact ⟨[], [], .done hr, rfl⟩
  | cons w ws ih =>
    rw [List.flatMap_cons, List.append_assoc] at hr
    obtain ⟨cs, r', hread, hne, hr', hkind, hinside⟩ := w.readsFirst_taskBlock hr
    obtain ⟨r₁, h₁, hr₁⟩ := exists_passes hread.reads.rest_eq
    obtain ⟨r₂, h₂, hr₂⟩ := exists_passes (hr₁.trans hr')
    obtain ⟨ms, out, hscans, hms⟩ := ih hr₂
    have hmisses : Misses taskBlock w.behind r₂.rest :=
      startsWith_taskBlock.misses w.untagged_behind
    exact ⟨_, _, .hit hread hne h₁ (hmisses.scans h₂ hscans),
      by rw [List.map_cons, hms, w.ofBlock_eq hkind hinside, List.map_cons]⟩

/-- A written plan is read as its tasks. -/
theorem tasks_text (p : WrittenPlan) : Plan.tasks p.text = p.tasks.map WrittenTask.read := by
  obtain ⟨r, hfront, hr⟩ :=
    exists_passes (r := .atStart p.text) (show p.text = p.front ++ _ from rfl)
  obtain ⟨ms, out, hscans, hms⟩ := exists_scans_taskBlock p.tasks hr
  have hmisses : Misses taskBlock p.front r.rest := startsWith_taskBlock.misses p.untagged
  rw [Plan.tasks, (hmisses.scans hfront hscans).findAll_eq, hms]

/-- A task without a type, with two files and a closing tag of another kind in its free text. -/
example :
    let t : Task := { name := "Add parser", kind := "", files := ["src/a.js", "src/b.js"],
                      action := "Read > write.", verify := "npm test" }
    let w : WrittenTask :=
      { task := t
        isWritable := ⟨by decide, by decide, by decide, by decide, by decide, by decide, by decide⟩
        lead := "\n  ".toList
        untagged_lead := by decide
        gap := fun _ => " /name>\n".toList
        untagged_gap := fun _ => by decide
        behind := ['\n']
        untagged_behind := by decide }
    Plan.tasks (WrittenPlan.text ⟨"# Plan\n".toList, by decide, [w, w]⟩) =
      [{ t with kind := "auto" }, { t with kind := "auto" }] := by
  decide +kernel

end CodeSurvey.Plan
