import CodeSurvey.Export.Assigned
import CodeSurvey.Proofs.Comment
import CodeSurvey.Proofs.Export.ObjectText
import CodeSurvey.Proofs.Pattern.Shortest

/-!
The keys that are found in an exported object. Its inside is cut at the commas up to the first
closing brace, and every piece gives the key with which it begins. Main statement: this is all that
is found in a script that assigns nothing else.
-/

namespace CodeSurvey.Export

open Import Pattern Text

/-! ### Keys in a text -/

/-- The key with which a piece begins. -/
def keyOf (piece : List Char) : Option String :=
  (objectKey.matchStart? piece).map fun m => String.ofList (m.group 1)

/-- A piece ends before this character. -/
def endsPiece (c : Char) : Bool := c == ',' || c == '}'

/-- The key with which the first piece of a text begins. -/
def firstKey (s : List Char) : Option String := keyOf (s.takeWhile fun c => !endsPiece c)

/-- The keys of the pieces behind the commas, up to the first closing brace. -/
def keysBehind : List Char → List String
  | [] => []
  | c :: s =>
    if c == '}' then [] else if c == ',' then (firstKey s).toList ++ keysBehind s else keysBehind s

/-- The keys of all pieces up to the first closing brace. -/
def keysIn (s : List Char) : List String := (firstKey s).toList ++ keysBehind s

/-- The text as a string if it is a word. -/
def wordOf (s : List Char) : Option String :=
  if s.all isWordChar then some (String.ofList s) else none

variable {c : Char} {b s t u w rest piece : List Char} {r r' : Reading} {cs : List Char}

/-! ### The key of a piece -/

/-- A key stands behind blanks and before a colon or the end; blanks may stand between. -/
theorem exists_of_reads_objectKey (h : Reads objectKey r cs r') :
    ∃ front more, (∀ c ∈ front, (isBlank c || isWordChar c) = true) ∧
      (∃ c ∈ front, isWordChar c = true) ∧ (more = [] ∨ more.head? = some ':') ∧
      r.rest = front ++ more := by
  obtain ⟨r₁, b, _, hblanks, hmore⟩ := exists_of_reads_cat h
  obtain ⟨r₂, w, _, hgroup, hmore⟩ := exists_of_reads_cat hmore
  obtain ⟨r₃, b', _, hblanks', hend⟩ := exists_of_reads_cat hmore
  obtain ⟨r₀, hword, rfl⟩ := exists_of_reads_group hgroup
  obtain ⟨hb, hbs, -⟩ := exists_of_reads_many hblanks
  obtain ⟨hw, hws, hsome⟩ := exists_of_reads_many hword
  obtain ⟨hb', hbs', -⟩ := exists_of_reads_many hblanks'
  have hblank : ∀ {s}, Blank s → ∀ c ∈ s, (isBlank c || isWordChar c) = true := fun hs c hc => by
    rw [hs c hc, Bool.true_or]
  have hfront : ∀ c ∈ b ++ (w ++ b'), (isBlank c || isWordChar c) = true := by
    rw [List.forall_mem_append, List.forall_mem_append]
    exact ⟨hblank hbs, fun c hc => by rw [hws c hc, Bool.or_true], hblank hbs'⟩
  obtain ⟨c, w, rfl⟩ := List.exists_cons_of_ne_nil (List.ne_nil_of_length_pos hsome)
  have hword : ∃ d ∈ b ++ (c :: w ++ b'), isWordChar d = true :=
    ⟨c, by simp, hws c (List.mem_cons_self ..)⟩
  have hrest : r.rest = b ++ (c :: w ++ b') ++ r₃.rest := by
    have hafter : r₀.rest = b' ++ r₃.rest := hb'.rest_eq
    rw [hb.rest_eq, hw.rest_eq, hafter]
    simp
  cases hend with
  | altFirst hcolon =>
    exact ⟨_, r₃.rest, hfront, hword, .inr (by rw [(passes_of_reads_text hcolon).rest_eq]; rfl),
      hrest⟩
  | altSecond hstop =>
    cases hstop with
    | textEnd stop =>
      rcases Bool.or_eq_true_iff.1 stop with hnil | hfeed
      · exact ⟨_, _, hfront, hword, .inl (List.isEmpty_iff.1 hnil), hrest⟩
      · -- a last line feed is a blank as well
        obtain ⟨d, hd, hdw⟩ := hword
        refine ⟨b ++ (c :: w ++ b') ++ ['\n'], [],
          List.forall_mem_append.2 ⟨hfront, by decide⟩, ⟨d, List.mem_append_left _ hd, hdw⟩,
          .inl rfl, ?_⟩
        rw [hrest, beq_iff_eq.1 hfeed, List.append_nil]

theorem keyOf_of_fails (h : Fails objectKey (.atStart piece)) : keyOf piece = none := by
  rw [keyOf, matchStart?, matchAt?_eq_none h]
  rfl

theorem keyOf_of_blank (hb : Blank b) : keyOf b = none := by
  refine keyOf_of_fails fun cs r' hreads => ?_
  obtain ⟨front, more, -, ⟨c, hc, hword⟩, -, hrest⟩ := exists_of_reads_objectKey hreads
  have hmem : c ∈ b := by
    rw [show b = front ++ more from hrest]
    exact List.mem_append_left _ hc
  rw [isWordChar_of_isBlank (hb c hmem)] at hword
  exact Bool.false_ne_true hword

/-- A piece has no key if another character stands in front of the first colon. -/
theorem keyOf_eq_none (hu : ':' ∉ u) (hblank : isBlank c = false) (hword : isWordChar c = false)
    (hcolon : c ≠ ':') (t : List Char) : keyOf (u ++ c :: t) = none := by
  refine keyOf_of_fails fun cs r' hreads => ?_
  obtain ⟨front, more, hfront, -, hmore, hrest⟩ := exists_of_reads_objectKey hreads
  have hc : c ∉ front := by
    intro hmem
    have := hfront c hmem
    rw [hblank, hword] at this
    exact Bool.false_ne_true this
  have heq : u ++ c :: t = front ++ more := hrest
  rcases List.append_eq_append_iff.1 heq with ⟨v, rfl, hv⟩ | ⟨v, rfl, hv⟩
  · cases v with
    | nil =>
      rcases hmore with rfl | hmore
      · simp at hv
      · rw [← List.nil_append more, ← hv] at hmore
        exact hcolon (Option.some.inj hmore)
    | cons d v =>
      obtain ⟨rfl, -⟩ := List.cons.inj hv
      exact hc (by simp)
  · rcases hmore with rfl | hmore
    · simp at hv
    · cases v with
      | nil =>
        rw [hv] at hmore
        exact hcolon (Option.some.inj hmore)
      | cons d v =>
        rw [hv] at hmore
        obtain rfl := Option.some.inj hmore
        exact hu (by simp)

/-- A word that can be read up to where a key has to end is the key. -/
theorem keyOf_eq_some (hb : Blank b) (hw : IsWord w)
    (hstop : ∀ c ∈ rest.head?, isWordChar c = false) (hend : ∀ s : Reading, s.rest = rest →
      ∃ cs r', ReadsFirst (seq [blanks, alt (lit ":") textEnd]) s cs r') :
    keyOf (b ++ (w ++ rest)) = some (String.ofList w) := by
  obtain ⟨r₁, h₁, hr₁⟩ := exists_passes (r := .atStart (b ++ (w ++ rest))) rfl
  obtain ⟨c, v, rfl, hfirst⟩ := hw.exists_first
  obtain ⟨r₂, hword, hr₂, hgroup⟩ :=
    exists_readsFirst_groupMany hr₁ hw.2 (Nat.succ_le_succ (Nat.zero_le _)) hstop
  obtain ⟨cs, r₃, hlast⟩ := hend r₂ hr₂
  have hread : ReadsFirst objectKey _ _ r₃ :=
    (ReadsFirst.someBlanks h₁ hb hr₁ hfirst).cat (hword.cat hlast)
  have hcaptures : r₃.captures = ⟨1, c :: v ++ rest, (c :: v).length⟩ :: r₁.captures :=
    (hlast.reads.captures_eq rfl).trans hgroup
  rw [keyOf, matchStart?, hread.matchAt?_eq, Option.map_some,
    Match.group_eq (m := matchOf _ _ r₃) hcaptures]

theorem keyOf_of_colon (hb : Blank b) (hw : IsWord w) (t : List Char) :
    keyOf (b ++ (w ++ ':' :: t)) = some (String.ofList w) := by
  refine keyOf_eq_some hb hw (stops_of_rest (r := .atStart (':' :: t)) rfl (by decide))
    fun s hs => ?_
  obtain ⟨r', h, -⟩ := exists_passes (show s.rest = [':'] ++ t from hs)
  exact ⟨_, r', (ReadsFirst.noBlanks hs (by decide)).cat (.altFirst (.text h))⟩

theorem keyOf_of_end {b' : List Char} (hb : Blank b) (hw : IsWord w) (hb' : Blank b') :
    keyOf (b ++ (w ++ b')) = some (String.ofList w) := by
  refine keyOf_eq_some hb hw (fun c hc => isWordChar_of_isBlank (hb' c (List.mem_of_head? hc)))
    fun s hs => ?_
  obtain ⟨r', h, hr'⟩ := exists_passes (hs.trans (List.append_nil b').symm)
  have hblanks : ReadsFirst blanks s b' r' :=
    .manyLongest h hb' (Nat.zero_le _) (by simp [hr'])
  exact ⟨_, r', hblanks.cat (.altSecond (.text (by simp [hr'])) (.textEnd hr'))⟩

/-! ### The first key of a text -/

theorem endsPiece_of_isBlank (h : isBlank c = true) : endsPiece c = false := by
  simp only [endsPiece, Bool.or_eq_false_iff, beq_eq_false_iff_ne]
  exact ⟨by rintro rfl; exact absurd h (by decide), by rintro rfl; exact absurd h (by decide)⟩

theorem endsPiece_of_isAtomChar (h : isAtomChar c = true) : endsPiece c = false := by
  simp only [endsPiece, Bool.or_eq_false_iff, beq_eq_false_iff_ne]
  exact ⟨by rintro rfl; exact absurd h (by decide), by rintro rfl; exact absurd h (by decide)⟩

/-- The first piece goes on over these characters. -/
theorem firstKey_append (hs : ∀ c ∈ s, endsPiece c = false) (t : List Char) :
    firstKey (s ++ t) = keyOf (s ++ t.takeWhile fun c => !endsPiece c) := by
  rw [firstKey, List.takeWhile_append_of_pos fun c hc => by rw [hs c hc]; rfl]

/-- The first piece ends behind these characters. -/
theorem firstKey_of_end (hs : ∀ c ∈ s, endsPiece c = false) (hc : endsPiece c = true)
    (t : List Char) : firstKey (s ++ c :: t) = keyOf s := by
  rw [firstKey_append hs, List.takeWhile_cons_of_neg (by rw [hc]; decide), List.append_nil]

theorem inPiece_of_blank (hb : Blank b) : ∀ c ∈ b, endsPiece c = false := fun c hc =>
  endsPiece_of_isBlank (hb c hc)

theorem inPiece_of_isAtomChar (hs : ∀ c ∈ s, isAtomChar c = true) :
    ∀ c ∈ s, endsPiece c = false := fun c hc => endsPiece_of_isAtomChar (hs c hc)

theorem isAtomChar_of_isWord (hw : IsWord w) : ∀ c ∈ w, isAtomChar c = true := fun c hc =>
  isAtomChar_of_isWordChar (hw.2 c hc)

theorem firstKey_of_colon (hb : Blank b) (hw : IsWord w) (t : List Char) :
    firstKey (b ++ (w ++ ':' :: t)) = some (String.ofList w) := by
  have hfront : ∀ c ∈ b ++ (w ++ [':']), endsPiece c = false := by
    rw [List.forall_mem_append, List.forall_mem_append]
    exact ⟨inPiece_of_blank hb, inPiece_of_isAtomChar (isAtomChar_of_isWord hw), by decide⟩
  have hcut : b ++ (w ++ ':' :: t) = (b ++ (w ++ [':'])) ++ t := by simp
  rw [hcut, firstKey_append hfront]
  simpa using keyOf_of_colon hb hw _

/-- A word alone in its piece is a key. -/
theorem firstKey_of_word {b' : List Char} (hb : Blank b) (hw : IsWord w) (hb' : Blank b')
    (hc : endsPiece c = true) (t : List Char) :
    firstKey (b ++ (w ++ (b' ++ c :: t))) = some (String.ofList w) := by
  have hpiece : ∀ c ∈ b ++ (w ++ b'), endsPiece c = false := by
    rw [List.forall_mem_append, List.forall_mem_append]
    exact ⟨inPiece_of_blank hb, inPiece_of_isAtomChar (isAtomChar_of_isWord hw),
      inPiece_of_blank hb'⟩
  have hcut : b ++ (w ++ (b' ++ c :: t)) = (b ++ (w ++ b')) ++ c :: t := by simp
  rw [hcut, firstKey_of_end hpiece hc, keyOf_of_end hb hw hb']

/-- A bracket or another character of no word leaves the piece without a key. -/
theorem firstKey_eq_none (hb : Blank b) (hs : ∀ d ∈ s, isAtomChar d = true)
    (hends : endsPiece c = false) (hblank : isBlank c = false) (hword : isWordChar c = false)
    (hcolon : c ≠ ':') (t : List Char) : firstKey (b ++ (s ++ c :: t)) = none := by
  have hfront : ∀ d ∈ b ++ (s ++ [c]), endsPiece d = false := by
    rw [List.forall_mem_append, List.forall_mem_append]
    exact ⟨inPiece_of_blank hb, inPiece_of_isAtomChar hs, List.forall_mem_singleton.2 hends⟩
  have hu : ':' ∉ b ++ s := by
    rw [List.mem_append, not_or]
    exact ⟨hb.notMem (by decide), fun hmem => absurd (hs ':' hmem) (by decide)⟩
  have hcut : b ++ (s ++ c :: t) = (b ++ (s ++ [c])) ++ t := by simp
  rw [hcut, firstKey_append hfront]
  simpa using keyOf_eq_none hu hblank hword hcolon _

/-- A name or number is a key before a comma if it is a word; before a bracket it is none. -/
theorem firstKey_atom (hb : Blank b) (hne : s ≠ []) (hs : ∀ d ∈ s, isAtomChar d = true)
    (hc : c ∈ [',', ']', ')']) (t : List Char) :
    firstKey (b ++ (s ++ c :: t)) = if c == ',' then wordOf s else none := by
  unfold wordOf
  by_cases hword : s.all isWordChar = true
  · rw [if_pos hword]
    have hw : IsWord s := ⟨hne, List.all_eq_true.1 hword⟩
    rcases List.mem_cons.1 hc with rfl | hc
    · exact firstKey_of_word hb hw (show Blank [] by decide) (by decide) t
    · have hbracket : ∀ d ∈ [']', ')'], endsPiece d = false ∧ isBlank d = false ∧
          isWordChar d = false ∧ d ≠ ':' ∧ d ≠ ',' := by decide
      obtain ⟨hends, hblank, hnone, hcolon, hcomma⟩ := hbracket c hc
      rw [firstKey_eq_none hb hs hends hblank hnone hcolon, if_neg (by simpa using hcomma)]
  · -- the first character of no word settles it, whatever stands behind
    rw [if_neg hword, ite_self]
    obtain ⟨d, hd, hnone⟩ : ∃ d ∈ s, isWordChar d = false := by simpa using hword
    have hatom := hs d hd
    obtain ⟨u, v, rfl⟩ := List.append_of_mem hd
    rw [List.append_assoc, List.cons_append]
    refine firstKey_eq_none hb (fun e he => hs e (List.mem_append_left _ he))
      (endsPiece_of_isAtomChar hatom) (isBlank_of_isAtomChar hatom) hnone ?_ _
    rintro rfl
    exact absurd hatom (by decide)

/-! ### Further keys -/

theorem keysBehind_append (hs : ∀ c ∈ s, endsPiece c = false) (t : List Char) :
    keysBehind (s ++ t) = keysBehind t := by
  induction s with
  | nil => rfl
  | cons c s ih =>
    obtain ⟨hc, hs⟩ := List.forall_mem_cons.1 hs
    obtain ⟨hcomma, hbrace⟩ := Bool.or_eq_false_iff.1 hc
    rw [List.cons_append, keysBehind, hcomma, hbrace, if_neg Bool.false_ne_true,
      if_neg Bool.false_ne_true]
    exact ih hs

theorem keysBehind_comma (s : List Char) : keysBehind (',' :: s) = keysIn s := rfl

theorem keysBehind_brace (s : List Char) : keysBehind ('}' :: s) = [] := rfl

theorem filterMap_cons_eq {α β : Type} (f : α → Option β) (a : α) (more : List α) :
    (a :: more).filterMap f = (f a).toList ++ more.filterMap f := by
  cases h : f a <;> simp [h]

theorem keysIn_brace (s : List Char) : keysIn ('}' :: s) = [] := by
  have hnone : firstKey ('}' :: s) = none :=
    (firstKey_of_end (List.forall_mem_nil _) rfl s).trans (keyOf_of_blank (List.forall_mem_nil _))
  rw [keysIn, keysBehind_brace, hnone]
  rfl

/-- The inside of an object up to its first closing brace is cut at the commas. -/
theorem filterMap_pieces_eq (hs : '}' ∉ s) (t : List Char) :
    (pieces ',' s).filterMap keyOf = keysIn (s ++ '}' :: t) := by
  suffices h : ∃ more, pieces ',' s = ((s ++ '}' :: t).takeWhile fun c => !endsPiece c) :: more ∧
      more.filterMap keyOf = keysBehind (s ++ '}' :: t) by
    obtain ⟨more, hpieces, hmore⟩ := h
    rw [hpieces, keysIn, firstKey, ← hmore, filterMap_cons_eq]
  induction s with
  | nil => exact ⟨[], rfl, rfl⟩
  | cons c s ih =>
    obtain ⟨more, hpieces, hmore⟩ := ih fun hmem => hs (List.mem_cons_of_mem c hmem)
    have hbrace : c ≠ '}' := fun heq => hs (heq ▸ List.mem_cons_self ..)
    by_cases hcomma : c = ','
    · subst hcomma
      refine ⟨_, rfl, ?_⟩
      rw [hpieces, List.cons_append, keysBehind_comma, keysIn, firstKey, ← hmore,
        filterMap_cons_eq]
    · have hends : endsPiece c = false := by simp [endsPiece, hcomma, hbrace]
      refine ⟨more, ?_, ?_⟩
      · rw [pieces, if_neg (by simpa using hcomma), hpieces, List.cons_append,
          List.takeWhile_cons_of_pos (by rw [hends]; rfl)]
      · rw [hmore]
        exact (keysBehind_append (List.forall_mem_singleton.2 hends) _).symm

/-! ### The patterns for exports -/

/-- An assignment to a member has its sign behind a dot. -/
theorem exists_of_reads_member {front : String}
    (h : Reads (seq [lit front, group 1 word, blanks, lit "="]) r cs r') :
    ∃ name more, r.rest = front.toList ++ (name ++ '=' :: more) := by
  obtain ⟨r₁, _, _, hfront, hmore⟩ := exists_of_reads_cat h
  obtain ⟨r₂, w, _, hgroup, hmore⟩ := exists_of_reads_cat hmore
  obtain ⟨r₃, b, _, hblanks, hsign⟩ := exists_of_reads_cat hmore
  have hsign := (passes_of_reads_text hsign).rest_eq
  refine ⟨w ++ b, r'.rest, ?_⟩
  rw [(passes_of_reads_text hfront).rest_eq, hgroup.rest_eq, hblanks.rest_eq, hsign]
  simp

/-- Before the only sign of a text no member is assigned. -/
theorem findAll_member_eq_nil {p : Pattern} (hs : ¬ ['s', '.'] <:+: s) (hsign : '=' ∉ s)
    (ht : '=' ∉ t)
    (hp : ∀ {r cs r'}, Reads p r cs r' →
      ∃ front name more, r.rest = front ++ "s.".toList ++ (name ++ '=' :: more)) :
    p.findAll (s ++ '=' :: t) = [] := by
  refine findAll_eq_nil fun us r hpasses cs r' hreads => ?_
  obtain ⟨front, name, more, hrest⟩ := hp hreads
  have heq : s ++ '=' :: t = (us ++ front ++ "s.".toList ++ name) ++ '=' :: more := by
    rw [show s ++ '=' :: t = us ++ r.rest from hpasses.rest_eq, hrest]
    simp
  obtain ⟨rfl, -⟩ := (List.append_cons_inj_of_notMem hsign ht).1 heq
  exact hs ⟨us ++ front, name, by simp⟩

theorem exists_of_reads_memberOfModule (h : Reads memberOfModule r cs r') :
    ∃ front name more, r.rest = front ++ "s.".toList ++ (name ++ '=' :: more) :=
  ⟨"module.export".toList, exists_of_reads_member h⟩

theorem exists_of_reads_memberOfExports (h : Reads memberOfExports r cs r') :
    ∃ front name more, r.rest = front ++ "s.".toList ++ (name ++ '=' :: more) := by
  obtain ⟨r₁, _, _, hplace, hmember⟩ := exists_of_reads_cat h
  cases hplace
  exact ⟨"export".toList, exists_of_reads_member hmember⟩

/-- The inside of an exported object is not empty. -/
theorem exists_of_reads_exportedObject (h : Reads exportedObject r cs r') :
    ∃ front c more, c ≠ '}' ∧ r.rest = front ++ '\x7b' :: c :: more := by
  obtain ⟨r₁, name, _, hname, hmore⟩ := exists_of_reads_cat h
  obtain ⟨r₂, b, _, hblanks, hmore⟩ := exists_of_reads_cat hmore
  obtain ⟨r₃, sign, _, hsign, hmore⟩ := exists_of_reads_cat hmore
  obtain ⟨r₄, b', _, hblanks', hmore⟩ := exists_of_reads_cat hmore
  obtain ⟨r₅, _, _, hbrace, hmore⟩ := exists_of_reads_cat hmore
  obtain ⟨r₆, _, _, hgroup, -⟩ := exists_of_reads_cat hmore
  obtain ⟨r₇, hinside, -⟩ := exists_of_reads_group hgroup
  obtain ⟨hpasses, hmem, hsome⟩ := exists_of_reads_many hinside
  obtain ⟨c, inside, rfl⟩ := List.exists_cons_of_ne_nil (List.ne_nil_of_length_pos hsome)
  refine ⟨name ++ (b ++ (sign ++ b')), c, inside ++ r₇.rest,
    bne_iff_ne.1 (hmem c (List.mem_cons_self ..)), ?_⟩
  rw [hname.rest_eq, hblanks.rest_eq, hsign.rest_eq, hblanks'.rest_eq,
    (passes_of_reads_text hbrace).rest_eq, hpasses.rest_eq]
  simp

/-- The first exported object reaches to the first closing brace. -/
theorem exists_first?_exportedObject (hs : '}' ∉ s) (hne : s ≠ []) (t : List Char) :
    ∃ m, exportedObject.first? ("module.exports = \x7b".toList ++ (s ++ '}' :: t)) = some m ∧
      m.group 1 = s := by
  have hstart : (Reading.atStart ("module.exports = \x7b".toList ++ (s ++ '}' :: t))).rest =
      "module.exports".toList ++ ([' '] ++ (['='] ++ ([' '] ++ (['\x7b'] ++
        (s ++ (['}'] ++ t)))))) := rfl
  obtain ⟨r₁, h₁, hr₁⟩ := exists_passes hstart
  obtain ⟨r₂, h₂, hr₂⟩ := exists_passes hr₁
  obtain ⟨r₃, h₃, hr₃⟩ := exists_passes hr₂
  obtain ⟨r₄, h₄, hr₄⟩ := exists_passes hr₃
  obtain ⟨r₅, h₅, hr₅⟩ := exists_passes hr₄
  obtain ⟨r₆, hinside, hr₆, hgroup⟩ : ∃ r₆, ReadsFirst (group 1 (others1 (· == '}'))) r₅ s r₆ ∧ _ :=
    exists_readsFirst_groupMany hr₅ (fun c hc => bne_iff_ne.2 fun heq => hs (heq ▸ hc))
      (List.length_pos_iff.2 hne) (stops_of_rest (r := .atStart ('}' :: t)) rfl (by decide))
  obtain ⟨r₇, h₇, -⟩ := exists_passes hr₆
  have hspace : ∀ c ∈ [' '], isBlank c = true := by decide
  have hread : ReadsFirst exportedObject _ _ r₇ :=
    .cat (.text h₁) (.cat (.someBlanks h₂ hspace hr₂ (by decide)) (.cat (.text h₃)
      (.cat (.someBlanks h₄ hspace hr₄ (by decide)) (.cat (.text h₅) (hinside.cat (.text h₇))))))
  have hcaptures := h₇.captures_eq.trans hgroup
  exact ⟨_, first?_eq .stay misses_nil hread (List.cons_ne_nil _ _),
    Match.group_eq (m := matchOf _ _ r₇) hcaptures⟩

/-- An empty object is no exported object. -/
theorem first?_exportedObject_empty (ht : '\x7b' ∉ t) :
    exportedObject.first? ("module.exports = \x7b".toList ++ '}' :: t) = none := by
  rw [first?_eq_head?, findAll_eq_nil, List.head?_nil]
  intro us r hpasses cs r' hreads
  obtain ⟨front, c, more, hc, hr⟩ := exists_of_reads_exportedObject hreads
  have heq : "module.exports = ".toList ++ '\x7b' :: '}' :: t =
      (us ++ front) ++ '\x7b' :: c :: more := by
    rw [List.append_assoc, ← hr]
    exact hpasses.rest_eq
  have hbehind : '\x7b' ∉ '}' :: t := by
    rw [List.mem_cons, not_or]
    exact ⟨by decide, ht⟩
  obtain ⟨-, -, hinside⟩ := (List.append_cons_inj_of_notMem (by decide) hbehind).1 heq
  exact hc (List.cons.inj hinside).1.symm

theorem findAll_member_objectText {p : Pattern} (hs : '=' ∉ s)
    (hp : ∀ {r cs r'}, Reads p r cs r' →
      ∃ front name more, r.rest = front ++ "s.".toList ++ (name ++ '=' :: more)) :
    p.findAll ("module.exports = \x7b".toList ++ s) = [] := by
  have hsign : '=' ∉ " \x7b".toList ++ s := by
    rw [List.mem_append, not_or]
    exact ⟨by decide, hs⟩
  exact findAll_member_eq_nil (s := "module.exports ".toList) (by simp [List.infix_cons_iff])
    (by decide) hsign hp

/-- What is found is what the pieces of the exported object begin with. -/
theorem assignedNames_eq (hsign : '=' ∉ s ++ '}' :: t) (hslash : '/' ∉ s ++ '}' :: t)
    (hs : '}' ∉ s) (ht : s = [] → '\x7b' ∉ t) :
    assignedNames ("module.exports = \x7b".toList ++ (s ++ '}' :: t)) =
      (keysIn (s ++ '}' :: t)).eraseDups := by
  have hslashes : '/' ∉ "module.exports = \x7b".toList ++ (s ++ '}' :: t) := by
    rw [List.mem_append, not_or]
    exact ⟨by decide, hslash⟩
  have hbare := (Comment.dropKind_slashLine _).trans
    (Comment.withoutSlashLines_eq_self (not_infix_of_notMem hslashes))
  have hmodule := findAll_member_objectText hsign exists_of_reads_memberOfModule
  have hexports := findAll_member_objectText hsign exists_of_reads_memberOfExports
  unfold assignedNames
  simp only [hbare, hmodule, hexports, List.append_nil, List.map_nil, List.nil_append]
  rw [← filterMap_pieces_eq hs]
  by_cases hne : s = []
  · subst hne
    have hnone := first?_exportedObject_empty (ht rfl)
    rw [List.nil_append, hnone, pieces, filterMap_cons_eq, keyOf_of_blank (List.forall_mem_nil _)]
    rfl
  · obtain ⟨m, hfirst, hgroup⟩ := exists_first?_exportedObject hs hne t
    rw [hfirst, Option.elim_some, hgroup, List.map_filterMap]
    simp only [Option.map_map]
    rfl

end CodeSurvey.Export
