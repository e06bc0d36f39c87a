import CodeSurvey.Proofs.Ecma.DeclarationLines
import CodeSurvey.Proofs.Ecma.Gaps
import CodeSurvey.Proofs.Import.ModuleList
import CodeSurvey.Proofs.Pattern.Ahead
import CodeSurvey.Proofs.Pattern.Replace
import CodeSurvey.Signature.LineScan

/-!
The patterns of the scan by lines on declarations as they are written: what each of them reads
first, what no reading of it can leave, and where the marks of asynchronous functions and generators
are found.
-/

namespace CodeSurvey.Signature.LineScan

open Ecma Ecma.Grammar Pattern

variable {b : Declaration} {c d : Char} {name s t u v rest x y : List Char} {ps : List (List Char)}
  {w : String}

/-! ### Characters -/

theorem append_cons_inj (hx : d ∉ x) (hs : c ∉ s) (h : x ++ c :: y = s ++ d :: t) :
    x = s ∧ c = d ∧ y = t := by
  induction x generalizing s with
  | nil =>
    cases s with
    | nil => simpa using h
    | cons e s => exact absurd (List.head_eq_of_cons_eq h ▸ List.mem_cons_self) hs
  | cons e x ih =>
    cases s with
    | nil => exact absurd (List.head_eq_of_cons_eq h ▸ List.mem_cons_self) hx
    | cons f s =>
      obtain ⟨rfl, htail⟩ := List.cons.inj h
      obtain ⟨rfl, hrest⟩ := ih (fun hd => hx (List.mem_cons_of_mem _ hd))
        (fun hc => hs (List.mem_cons_of_mem _ hc)) htail
      exact ⟨rfl, hrest⟩

theorem notMem_blanks (hs : ∀ e ∈ s, Text.isBlank e = true) (hc : Text.isBlank c = false) :
    c ∉ s := by
  intro hmem
  rw [hs c hmem] at hc
  cases hc

/-! ### Words in front of a declaration -/

theorem not_leaves_lit {q : Pattern} (hd : w.toList.head? = some d) (hc : d ≠ c) :
    ¬ Leaves (cat (lit w) q) (c :: t) rest := by
  intro h
  obtain ⟨u, hfirst, -⟩ := h.cat_inv
  obtain ⟨more, hmore⟩ := List.head?_eq_some_iff.1 hd
  have hlit := hfirst.lit_inv
  rw [hmore] at hlit
  exact hc (List.head_eq_of_cons_eq hlit).symm

/-- A word with blanks behind it that may be left out. -/
theorem leads_word (there : Bool) (hd : w.toList.head? = some d) (hc : d ≠ c)
    (hblank : Text.isBlank c = false) :
    Leads (maybe (seq [lit w, blanks1])) (wordText w there ++ c :: t) (c :: t) [] := by
  cases there with
  | true =>
    have hspace : Leads blanks1 ([' '] ++ c :: t) (c :: t) [] :=
      .many (by decide) (Nat.le_refl _) (stops_of_rest (r := .atStart (c :: t)) rfl hblank)
    have hword : Leads (seq [lit w, blanks1]) (w.toList ++ ([' '] ++ c :: t)) (c :: t) [] :=
      .cat (.lit w _) hspace
    rw [wordText, if_pos rfl, List.append_assoc]
    exact .altFirst hword
  | false => exact .maybeNot fun rest => not_leaves_lit hd hc

theorem leaves_word_inv {there : Bool} (hd : w.toList.head? = some d) (hc : d ≠ c)
    (hblank : Text.isBlank c = false)
    (h : Leaves (maybe (seq [lit w, blanks1])) (wordText w there ++ c :: t) v) :
    v = c :: t ∨ v = wordText w there ++ c :: t := by
  rcases h.maybe_inv with h | h
  · cases there with
    | true =>
      obtain ⟨u, hfirst, hsecond⟩ := h.cat_inv
      have hlit := hfirst.lit_inv
      rw [wordText, if_pos rfl, List.append_assoc] at hlit
      obtain ⟨cs, hcs, hall, henough⟩ := hsecond.many_inv
      rw [← List.append_cancel_left hlit] at hcs
      obtain ⟨e, cs, rfl⟩ := List.exists_cons_of_length_pos henough
      obtain ⟨-, htail⟩ := List.cons.inj hcs
      cases cs with
      | nil => exact .inl htail.symm
      | cons e' cs =>
        obtain rfl : c = e' := List.head_eq_of_cons_eq htail
        rw [hall c (by simp)] at hblank
        cases hblank
    | false => exact absurd h (not_leaves_lit hd hc)
  · exact .inr h

/-! ### Functions -/

/-- What the scan needs of a star: it knows no other spaces than blanks, and at least one of them
    has to follow the star. -/
def StarFits : Option (List Char × List Char) → Prop
  | none => True
  | some (before, after) =>
    (∀ c ∈ before, Text.isBlank c = true) ∧ after ≠ [] ∧ ∀ c ∈ after, Text.isBlank c = true

/-- The part of the pattern for functions behind the keyword. -/
def behindFunction : Pattern :=
  seq [blanks, maybe (lit "*"), blanks1, group 1 word, blanks, lit "(", parameters, lit ")"]

/-- Behind a line's `export` neither a mark nor the keyword of a function begins with the letter. -/
theorem not_leaves_marked (ha : 'a' ≠ c) (hf : 'f' ≠ c) :
    ¬ Leaves (cat asyncWord (cat (lit "function") behindFunction)) (c :: t) rest := by
  intro h
  obtain ⟨u, hasync, h⟩ := h.cat_inv
  rcases hasync.maybe_inv with hasync | rfl
  · exact not_leaves_lit rfl ha hasync
  · exact not_leaves_lit rfl hf h

theorem leaves_functionLine_inv {exported async : Bool}
    (h : Leaves functionLine (wordText "export" exported ++ (wordText "async" async ++
      ("function".toList ++ t))) rest) : Leaves behindFunction t rest := by
  have hfunction : ∀ {u}, u = "function".toList ++ t ∨ u = wordText "async" async ++
      ("function".toList ++ t) → Leaves (cat (lit "function") behindFunction) u rest →
        Leaves behindFunction t rest := by
    intro u hu hleaves
    have hhere : u = "function".toList ++ t := by
      refine hu.elim id fun hu => ?_
      cases async with
      | true => exact absurd (hu ▸ hleaves) (not_leaves_lit (c := 'a') (d := 'f') rfl (by decide))
      | false => exact hu
    obtain ⟨v, hfirst, hsecond⟩ := (hhere ▸ hleaves).cat_inv
    rwa [← List.append_cancel_left hfirst.lit_inv] at hsecond
  have hmarked : Leaves (cat asyncWord (cat (lit "function") behindFunction))
      (wordText "async" async ++ ("function".toList ++ t)) rest → Leaves behindFunction t rest := by
    intro h
    obtain ⟨u, hasync, h⟩ := h.cat_inv
    exact hfunction (leaves_word_inv (c := 'f') rfl (by decide) (by decide) hasync) h
  obtain ⟨u, hexported, hmore⟩ := h.cat_inv
  have hu : u = wordText "async" async ++ ("function".toList ++ t) ∨
      u = wordText "export" exported ++ (wordText "async" async ++ ("function".toList ++ t)) := by
    cases async with
    | true => exact leaves_word_inv (c := 'a') rfl (by decide) (by decide) hexported
    | false => exact leaves_word_inv (c := 'f') rfl (by decide) (by decide) hexported
  rcases hu with rfl | rfl
  · exact hmarked hmore
  · cases exported with
    | false => exact hmarked hmore
    | true => exact absurd hmore (not_leaves_marked (by decide) (by decide))

theorem starFits_of_leaves {before after : List Char} (hname : SpellsName name)
    (hblank : ∀ c ∈ name, Text.isBlank c = false)
    (hspaces : ∀ c ∈ before ++ after, isSpace c = true)
    (h : Leaves behindFunction (before ++ '*' :: (after ++ (name ++ t))) rest) :
    StarFits (some (before, after)) := by
  obtain ⟨hbefore, hafter⟩ := List.forall_mem_append.1 hspaces
  obtain ⟨v₁, hblanks, h⟩ := h.cat_inv
  obtain ⟨v₂, hstar, h⟩ := h.cat_inv
  obtain ⟨v₃, hblanks1, h⟩ := h.cat_inv
  obtain ⟨v₄, hword, -⟩ := h.cat_inv
  obtain ⟨cs, hcs, hall, -⟩ := hblanks.many_inv
  obtain ⟨ds, rfl, hall', henough⟩ := hblanks1.many_inv
  obtain ⟨es, rfl, hword, hlong⟩ := hword.group_inv.many_inv
  obtain ⟨e, es, rfl⟩ := List.exists_cons_of_length_pos hlong
  obtain ⟨n, more, rfl, -⟩ := hname.exists_cons
  have he := hword e List.mem_cons_self
  have hspace : ∀ {s : List Char}, (∀ c ∈ s, isSpace c = true) → e ∉ s := fun hs hmem => by
    rw [isWordChar_of_isSpace (hs e hmem)] at he
    cases he
  have hstarBlank : Text.isBlank '*' = false := by decide
  have hmark : '*' ∉ before := fun hmem => absurd (hbefore _ hmem) (by decide)
  rcases hstar.maybe_inv with hstar | heq
  · rw [hstar.lit_inv] at hcs
    obtain ⟨rfl, -, hbehind⟩ := append_cons_inj hmark (notMem_blanks hall hstarBlank) hcs
    obtain ⟨rfl, -, -⟩ := append_cons_inj (hspace hafter)
      (notMem_blanks hall' (hblank n List.mem_cons_self)) hbehind
    exact ⟨hall, List.ne_nil_of_length_pos henough, hall'⟩
  · rw [← heq] at hcs
    obtain ⟨-, rfl, -⟩ := append_cons_inj (hspace hbefore)
      (notMem_blanks (List.forall_mem_append.2 ⟨hall, hall'⟩) hstarBlank)
      (hcs.trans (List.append_assoc cs ds _).symm)
    exact absurd he (by decide)

/-- What the two groups of a line remember. -/
def captures (name ps t u : List Char) : List Capture :=
  [⟨2, ps ++ t, ps.length⟩, ⟨1, name ++ u, name.length⟩]

theorem stops_cons {set : Char → Bool} (hc : set c = false) : ∀ d ∈ (c :: t).head?, set d = false :=
  stops_of_rest (r := .atStart (c :: t)) rfl hc

theorem leads_parameters {params : List Char} (hparams : ')' ∉ params) :
    Leads parameters (params ++ ')' :: t) (')' :: t) [⟨2, params ++ ')' :: t, params.length⟩] := by
  have hothers : ∀ c ∈ params, (!(c == ')')) = true := by
    intro c hc
    rw [Bool.not_eq_true', beq_eq_false_iff_ne]
    rintro rfl
    exact hparams hc
  exact .group (.many hothers (Nat.zero_le _) (stops_cons (by decide)))

/-- A name and the list in parentheses behind it. -/
theorem leads_nameList {params : List Char} (hname : Import.IsWord name) (hparams : ')' ∉ params) :
    Leads (seq [group 1 word, blanks, lit "(", parameters, lit ")"])
      (name ++ '(' :: (params ++ ')' :: t)) t
      (captures name params (')' :: t) ('(' :: (params ++ ')' :: t))) := by
  have hword : Leads (group 1 word) (name ++ '(' :: (params ++ ')' :: t))
      ('(' :: (params ++ ')' :: t)) _ :=
    .group (.many hname.2 (List.length_pos_iff.2 hname.1) (stops_cons (by decide)))
  have hblanks : Leads blanks ([] ++ '(' :: (params ++ ')' :: t)) _ [] :=
    .many nofun (Nat.zero_le _) (stops_cons (by decide))
  exact .cat hword
    (.cat hblanks (.cat (.lit "(" _) (.cat (leads_parameters hparams) (.lit ")" t))))

theorem leads_behindFunction {params : List Char} {star : Option (List Char × List Char)}
    (hname : Import.IsWord name) (hparams : ')' ∉ params) (hstar : StarFits star) :
    Leads behindFunction (gapText star ++ (name ++ '(' :: (params ++ ')' :: t))) t
      (captures name params (')' :: t) ('(' :: (params ++ ')' :: t))) := by
  have hlist := leads_nameList (t := t) hname hparams
  obtain ⟨n, more, rfl, hn⟩ := hname.exists_first
  cases star with
  | none =>
    have hblank : Leads blanks1 ([' '] ++ n :: (more ++ '(' :: (params ++ ')' :: t))) _ [] :=
      .many (by decide) (Nat.le_refl _) (stops_cons hn)
    refine .giveBack (by decide) (stops_cons hn) (fun rest h => ?_)
      (.cat (.maybeNot fun rest h => ?_) (.cat hblank hlist))
    · obtain ⟨u, hstar, h⟩ := h.cat_inv
      obtain ⟨v, hblanks, -⟩ := h.cat_inv
      rcases hstar.maybe_inv with hstar | rfl
      · obtain rfl : n = '*' := List.head_eq_of_cons_eq hstar.lit_inv
        exact absurd (hname.2 '*' List.mem_cons_self) (by decide)
      · obtain ⟨cs, hcs, hall, henough⟩ := hblanks.many_inv
        obtain ⟨d, cs, rfl⟩ := List.exists_cons_of_length_pos henough
        obtain rfl : n = d := List.head_eq_of_cons_eq hcs
        rw [hall n List.mem_cons_self] at hn
        cases hn
    · exact absurd (List.head_eq_of_cons_eq h.lit_inv) (by decide)
  | some around =>
    obtain ⟨before, after⟩ := around
    obtain ⟨hbefore, hne, hafter⟩ := hstar
    have hblanks : Leads blanks (before ++ '*' :: (after ++ (n :: more ++
        '(' :: (params ++ ')' :: t)))) _ [] :=
      .many hbefore (Nat.zero_le _) (stops_cons (by decide))
    have hblanks1 : Leads blanks1 (after ++ (n :: more ++ '(' :: (params ++ ')' :: t))) _ [] :=
      .many hafter (List.length_pos_iff.2 hne) (stops_cons hn)
    rw [gapText, List.append_assoc]
    exact .cat hblanks (.cat (.altFirst (.lit "*" _)) (.cat hblanks1 hlist))

theorem leads_functionLine {params : List Char} (exported async : Bool)
    {star : Option (List Char × List Char)} (hname : Import.IsWord name) (hparams : ')' ∉ params)
    (hstar : StarFits star) :
    Leads functionLine (wordText "export" exported ++ (wordText "async" async ++
      ("function".toList ++ (gapText star ++ (name ++ '(' :: (params ++ ')' :: t)))))) t
      (captures name params (')' :: t) ('(' :: (params ++ ')' :: t))) := by
  have hkeyword : Leads (cat (lit "function") behindFunction) _ t _ :=
    .cat (.lit "function" _) (leads_behindFunction (t := t) hname hparams hstar)
  have hasync : Leads (cat asyncWord (cat (lit "function") behindFunction))
      (wordText "async" async ++ ("function".toList ++
        (gapText star ++ (name ++ '(' :: (params ++ ')' :: t))))) t _ :=
    .cat (leads_word async (c := 'f') rfl (by decide) (by decide)) hkeyword
  cases async with
  | true => exact .cat (leads_word exported (c := 'a') rfl (by decide) (by decide)) hasync
  | false => exact .cat (leads_word exported (c := 'f') rfl (by decide) (by decide)) hasync

/-! ### Classes -/

theorem leads_classLine (exported : Bool) (hname : Import.IsWord name)
    (ht : ∀ c ∈ t.head?, Text.isWordChar c = false) :
    Leads classLine (wordText "export" exported ++ ("class".toList ++ ' ' :: (name ++ t))) t
      [⟨1, name ++ t, name.length⟩] := by
  obtain ⟨n, more, rfl, hn⟩ := hname.exists_first
  have hblank : Leads blanks1 ([' '] ++ n :: (more ++ t)) (n :: (more ++ t)) [] :=
    .many (by decide) (Nat.le_refl _) (stops_cons hn)
  have hword : Leads (group 1 word) (n :: more ++ t) t _ :=
    .group (.many hname.2 (Nat.succ_le_succ (Nat.zero_le _)) ht)
  exact .cat (leads_word exported (c := 'c') rfl (by decide) (by decide))
    (.cat (.lit "class" _) (.cat hblank hword))

theorem not_leaves_functionLine {exported : Bool} (ha : 'a' ≠ c) (he : 'e' ≠ c) (hf : 'f' ≠ c)
    (hblank : Text.isBlank c = false) :
    ¬ Leaves functionLine (wordText "export" exported ++ c :: t) rest := by
  intro h
  obtain ⟨u, hexported, h⟩ := h.cat_inv
  rcases leaves_word_inv rfl he hblank hexported with rfl | rfl
  · exact not_leaves_marked ha hf h
  · cases exported with
    | true => exact not_leaves_marked (by decide) (by decide) h
    | false => exact not_leaves_marked ha hf h

/-! ### Variables -/

theorem leads_binder (binder : Binder) :
    Leads (oneOf [lit "const", lit "let", lit "var"]) (binder.text.toList ++ t) t [] := by
  have hno : ∀ {w : String} {c d : Char} {t : List Char}, w.toList.head? = some d → d ≠ c →
      ∀ rest, ¬ Leaves (lit w) (c :: t) rest := by
    intro w c d t hd hc rest h
    obtain ⟨more, hmore⟩ := List.head?_eq_some_iff.1 hd
    have hlit := h.lit_inv
    rw [hmore] at hlit
    exact hc (List.head_eq_of_cons_eq hlit).symm
  cases binder with
  | const => exact .altFirst (.lit "const" t)
  | «let» => exact .altSecond (hno rfl (by decide)) (.altFirst (.lit "let" t))
  | var => exact .altSecond (hno rfl (by decide)) (.altSecond (hno rfl (by decide)) (.lit "var" t))

theorem not_leaves_classLine {exported : Bool} (binder : Binder) :
    ¬ Leaves classLine (wordText "export" exported ++ (binder.text.toList ++ t)) rest := by
  intro h
  obtain ⟨u, hexported, h⟩ := h.cat_inv
  have hu : u = binder.text.toList ++ t ∨
      u = wordText "export" exported ++ (binder.text.toList ++ t) := by
    cases binder with
    | const => exact leaves_word_inv (c := 'c') rfl (by decide) (by decide) hexported
    | «let» => exact leaves_word_inv (c := 'l') rfl (by decide) (by decide) hexported
    | var => exact leaves_word_inv (c := 'v') rfl (by decide) (by decide) hexported
  obtain ⟨v, hclass, -⟩ := h.cat_inv
  have htwo := congrArg (List.take 2) hclass.lit_inv
  rcases hu with rfl | rfl <;> cases binder <;> cases exported <;>
    exact absurd htwo (by simp [wordText, Binder.text])

theorem leads_arrowLine {params : List Char} (exported async : Bool) (binder : Binder)
    (hname : Import.IsWord name) (hparams : ')' ∉ params) :
    Leads arrowLine (wordText "export" exported ++ (binder.text.toList ++ ' ' :: (name ++
        ' ' :: '=' :: ' ' :: (wordText "async" async ++ '(' :: (params ++
          ')' :: ' ' :: '=' :: '>' :: t))))) t
      (captures name params (')' :: ' ' :: '=' :: '>' :: t) (' ' :: '=' :: ' ' ::
        (wordText "async" async ++ '(' :: (params ++ ')' :: ' ' :: '=' :: '>' :: t)))) := by
  obtain ⟨n, more, rfl, hn⟩ := hname.exists_first
  have harrow : Leads (seq [blanks, lit "=>"]) ([' '] ++ '=' :: '>' :: t) t _ :=
    .cat (.many (by decide) (Nat.zero_le _) (stops_cons (by decide))) (.lit "=>" t)
  have hvalue : Leads (seq [maybe (lit "("), parameters, maybe (lit ")"), blanks, lit "=>"])
      ('(' :: (params ++ ')' :: ' ' :: '=' :: '>' :: t)) t _ :=
    .cat (.altFirst (.lit "(" _))
      (.cat (leads_parameters hparams) (.cat (.altFirst (.lit ")" _)) harrow))
  have hasync : Leads asyncWord (wordText "async" async ++ '(' :: (params ++
      ')' :: ' ' :: '=' :: '>' :: t)) _ [] :=
    leads_word async rfl (by decide) (by decide)
  have hspace : Leads blanks ([' '] ++ (wordText "async" async ++ '(' :: (params ++
      ')' :: ' ' :: '=' :: '>' :: t))) _ [] :=
    .many (by decide) (Nat.zero_le _) (by cases async <;> exact stops_cons (by decide))
  have hequals : Leads blanks ([' '] ++ '=' :: ' ' :: (wordText "async" async ++ '(' :: (params ++
      ')' :: ' ' :: '=' :: '>' :: t))) _ [] :=
    .many (by decide) (Nat.zero_le _) (stops_cons (by decide))
  have hword : Leads (group 1 word) (n :: more ++ ' ' :: '=' :: ' ' :: (wordText "async" async ++
      '(' :: (params ++ ')' :: ' ' :: '=' :: '>' :: t))) _ _ :=
    .group (.many hname.2 (Nat.succ_le_succ (Nat.zero_le _)) (stops_cons (by decide)))
  have hblank : Leads blanks1 ([' '] ++ n :: (more ++ ' ' :: '=' :: ' ' ::
      (wordText "async" async ++ '(' :: (params ++ ')' :: ' ' :: '=' :: '>' :: t)))) _ [] :=
    .many (by decide) (Nat.le_refl _) (stops_cons hn)
  have hbinder := Leads.cat (leads_binder binder) (.cat hblank (.cat hword (.cat hequals
    (.cat (.lit "=" _) (.cat hspace (.cat hasync hvalue))))))
  cases binder with
  | const => exact .cat (leads_word exported (c := 'c') rfl (by decide) (by decide)) hbinder
  | «let» => exact .cat (leads_word exported (c := 'l') rfl (by decide) (by decide)) hbinder
  | var => exact .cat (leads_word exported (c := 'v') rfl (by decide) (by decide)) hbinder

/-! ### Marks of functions -/

/-- What begins with a character begins behind texts without it. -/
theorem suffix_of_notMem (hx : c ∉ x) (h : c :: t <:+ x ++ y) : c :: t <:+ y := by
  induction x with
  | nil => exact h
  | cons d x ih =>
    rcases List.suffix_cons_iff.1 h with heq | h
    · exact absurd (List.head_eq_of_cons_eq heq ▸ List.mem_cons_self) hx
    · exact ih (fun hc => hx (List.mem_cons_of_mem d hc)) h

/-- A character with a blank behind it stands behind texts without blanks. -/
theorem suffix_of_noBlank (hd : Text.isBlank d = true) (hx : ∀ e ∈ x, Text.isBlank e = false)
    (hy : ∀ e ∈ y.head?, Text.isBlank e = false) (h : c :: d :: t <:+ x ++ y) :
    c :: d :: t <:+ y := by
  induction x with
  | nil => exact h
  | cons e x ih =>
    obtain ⟨-, hmore⟩ := List.forall_mem_cons.1 hx
    rcases List.suffix_cons_iff.1 h with heq | h
    · have htail := (List.cons.inj heq).2
      have hnone : Text.isBlank d = false := by
        cases x with
        | nil =>
          replace htail : d :: t = y := htail
          exact hy d (by rw [← htail]; rfl)
        | cons f x => exact (List.head_eq_of_cons_eq htail) ▸ hmore f List.mem_cons_self
      rw [hd] at hnone
      cases hnone
    · exact ih hmore h

theorem occursIn_asyncFunction {exported : Bool} :
    asyncFunction.occursIn (wordText "export" exported ++ (wordText "async" true ++
      ("function".toList ++ t))) = true := by
  have hspace : Leads blanks1 ([' '] ++ 'f' :: ("unction".toList ++ t)) _ [] :=
    .many (by decide) (Nat.le_refl _) (stops_cons (by decide))
  have hasync : Leads asyncFunction ("async".toList ++ ' ' :: ("function".toList ++ t)) t _ :=
    .cat (.lit "async" _) (.cat hspace (.lit "function" t))
  exact occursIn_of_leads hasync _

theorem suffix_of_list (hd : Text.isBlank d = true)
    (hps : ∀ p ∈ ps, ∀ c ∈ p, Text.isBlank c = false) (hy : y.head? = some ')')
    (h : 'c' :: d :: t <:+ listText ps ++ y) : 'c' :: d :: t <:+ y := by
  have hyBlank : ∀ e ∈ y.head?, Text.isBlank e = false := fun e he => by
    obtain rfl := Option.some.inj (hy.symm.trans he)
    decide
  induction ps with
  | nil => exact h
  | cons p ps ih =>
    obtain ⟨hp, hmore⟩ := List.forall_mem_cons.1 hps
    cases ps with
    | nil => exact suffix_of_noBlank hd hp hyBlank h
    | cons q ps =>
      rw [listText_cons_cons, List.append_assoc] at h
      have hcomma := suffix_of_noBlank hd hp (stops_cons (by decide)) h
      exact ih hmore (suffix_of_notMem (x := [',', ' ']) (by decide) hcomma)

theorem not_occursIn_asyncFunction {exported : Bool} {star : Option (List Char × List Char)}
    (hstar : 'c' ∉ gapText star) (hname : ∀ c ∈ name, Text.isBlank c = false)
    (hps : ∀ p ∈ ps, ∀ c ∈ p, Text.isBlank c = false) (ht : 'c' ∉ t) :
    asyncFunction.occursIn (wordText "export" exported ++ ("function".toList ++ (gapText star ++
      (name ++ '(' :: (listText ps ++ ')' :: t))))) = false := by
  refine occursIn_eq_false fun u hu rest h => ?_
  obtain ⟨v, hasync, h⟩ := h.cat_inv
  obtain ⟨v', hblanks, -⟩ := h.cat_inv
  obtain ⟨cs, rfl, hall, henough⟩ := hblanks.many_inv
  obtain ⟨d, cs, rfl⟩ := List.exists_cons_of_length_pos henough
  have hd := hall d List.mem_cons_self
  have hword : 'c' :: d :: (cs ++ v') <:+ u := by
    rw [hasync.lit_inv]
    exact ⟨['a', 's', 'y', 'n'], rfl⟩
  have hexported : 'c' ∉ wordText "export" exported := by cases exported <;> decide
  have h := suffix_of_notMem hexported (hword.trans hu)
  replace h := suffix_of_noBlank (x := "func".toList) hd (by decide)
    (stops_cons (c := 't') (by decide)) h
  replace h := suffix_of_notMem hstar (suffix_of_notMem (x := "tion".toList) (by decide) h)
  replace h := suffix_of_noBlank hd hname (stops_cons (by decide)) h
  replace h := suffix_of_list hd hps rfl (suffix_of_notMem (x := ['(']) (by decide) h)
  have hc : 'c' ∉ ')' :: t := List.not_mem_cons_of_ne_of_not_mem (by decide) ht
  exact hc (h.subset List.mem_cons_self)

theorem occursIn_starredFunction {before : List Char}
    (hbefore : ∀ c ∈ before, Text.isBlank c = true) :
    starredFunction.occursIn (s ++ ("function".toList ++ (before ++ '*' :: t))) = true := by
  have hblanks : Leads blanks (before ++ '*' :: t) ('*' :: t) [] :=
    .many hbefore (Nat.zero_le _) (stops_cons (by decide))
  have hstarred : Leads starredFunction ("function".toList ++ (before ++ '*' :: t)) t _ :=
    .cat (.lit "function" _) (.cat hblanks (.lit "*" t))
  exact occursIn_of_leads hstarred s

theorem not_occursIn_starredFunction (h : '*' ∉ t) : starredFunction.occursIn t = false := by
  refine occursIn_eq_false fun u hu rest hleaves => h (hu.subset ?_)
  obtain ⟨v, hkeyword, hleaves⟩ := hleaves.cat_inv
  obtain ⟨v', hblanks, hstar⟩ := hleaves.cat_inv
  obtain ⟨cs, rfl, -⟩ := hblanks.many_inv
  rw [hkeyword.lit_inv, hstar.lit_inv]
  simp

theorem occursIn_asyncValue (s t : List Char) :
    asyncValue.occursIn (s ++ '=' :: ' ' :: (wordText "async" true ++ t)) = true := by
  have hspace : Leads blanks ([' '] ++ ("async".toList ++ ' ' :: t)) _ [] :=
    .many (by decide) (Nat.zero_le _) (stops_cons (by decide))
  have hasync : Leads asyncValue ('=' :: ' ' :: ("async".toList ++ ' ' :: t)) (' ' :: t) _ :=
    .cat (.lit "=" _) (.cat hspace (.lit "async" _))
  exact occursIn_of_leads hasync s

/-- Behind blanks no `async` stands where another letter does. -/
theorem not_leaves_asyncValue (hs : ∀ e ∈ s, Text.isBlank e = true) (hc : Text.isBlank c = false)
    (ha : 'a' ≠ c) : ¬ Leaves asyncValue ('=' :: (s ++ c :: t)) rest := by
  intro h
  obtain ⟨u, hequals, h⟩ := h.cat_inv
  obtain ⟨v, hblanks, hasync⟩ := h.cat_inv
  obtain ⟨cs, rfl, hall, -⟩ := hblanks.many_inv
  have heq : s ++ c :: t = cs ++ 'a' :: ("sync".toList ++ rest) := by
    have hlit := hequals.lit_inv
    rw [hasync.lit_inv] at hlit
    exact (List.cons.inj hlit).2
  have haBlank : Text.isBlank 'a' = false := by decide
  exact ha (append_cons_inj (notMem_blanks hs haBlank) (notMem_blanks hall hc) heq).2.1.symm

theorem not_occursIn_asyncValue (hx : '=' ∉ x) (hy : '=' ∉ y) (ht : '=' ∉ t) :
    asyncValue.occursIn (x ++ '=' :: ' ' :: '(' :: (y ++ '=' :: '>' :: t)) = false := by
  refine occursIn_eq_false fun u hu rest h => ?_
  obtain ⟨v, rfl⟩ : ∃ v, u = '=' :: v := by
    obtain ⟨v, hequals, -⟩ := h.cat_inv
    exact ⟨v, hequals.lit_inv⟩
  rcases List.suffix_cons_iff.1 (suffix_of_notMem hx hu) with heq | hu
  · rw [heq] at h
    exact not_leaves_asyncValue (s := [' ']) (by decide) (by decide) (by decide) h
  · replace hu := suffix_of_notMem (x := [' ', '(']) (by decide) hu
    rcases List.suffix_cons_iff.1 (suffix_of_notMem hy hu) with heq | hu
    · rw [heq] at h
      exact not_leaves_asyncValue (s := []) nofun (c := '>') (by decide) (by decide) h
    · have hmem : '=' ∉ '>' :: t := List.not_mem_cons_of_ne_of_not_mem (by decide) ht
      exact hmem (hu.subset List.mem_cons_self)

end CodeSurvey.Signature.LineScan
