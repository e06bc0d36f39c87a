import CodeSurvey.Proofs.Import.ModuleList

/-!
Objects as they are assigned to the exports of a module: entries with keys that are words, alone or
with values made of names, numbers, arrays, calls and objects.
-/

namespace CodeSurvey.Export

open Import Pattern Text

/-- A name: word characters and dollar signs. -/
structure Identifier where
  chars : List Char
  ne_nil : chars ≠ []
  isName : ∀ c ∈ chars, (isWordChar c || c == '$') = true

/-- Digits, at least one. -/
def IsDigits (s : List Char) : Prop := s ≠ [] ∧ ∀ c ∈ s, among "0123456789" c = true

instance (s : List Char) : Decidable (IsDigits s) :=
  @instDecidableAnd _ _ _ (List.decidableBAll _ s)

/-- A number in decimal notation, with or without a fraction. -/
structure Numeral where
  whole : List Char
  fraction? : Option (List Char)
  isWhole : IsDigits whole
  isFraction : ∀ f ∈ fraction?, IsDigits f

def Numeral.chars (n : Numeral) : List Char := n.whole ++ n.fraction?.elim [] ('.' :: ·)

/-- A key of an object. -/
structure Key where
  chars : List Char
  isWord : IsWord chars

mutual

/-- A value in an object. -/
inductive Value where
  | name (name : Identifier)
  | number (number : Numeral)
  | array (items : List Value)
  | call (function : Identifier) (arguments : List Value)
  | object (entries : List Entry)

/-- An entry of an object: a key that names its value, or a key with a value. -/
inductive Entry where
  | shorthand (key : Key)
  | pair (key : Key) (value : Value)

end

/-- The key as a string. -/
def Key.name (key : Key) : String := String.ofList key.chars

def Entry.key : Entry → Key
  | shorthand key => key
  | pair key _ => key

/-- The blanks in a script: behind opening braces, behind commas, before closing braces and at the
    end. -/
structure Layout where
  opening : List Char
  gap : List Char
  closing : List Char
  ending : List Char
  blankOpening : Blank opening
  blankGap : Blank gap
  blankClosing : Blank closing
  blankEnding : Blank ending

mutual

/-- A value as it is written. -/
def Value.text (l : Layout) : Value → List Char
  | .name n => n.chars
  | .number n => n.chars
  | .array items => '[' :: (itemsText l false items ++ [']'])
  | .call f arguments => f.chars ++ '(' :: (itemsText l false arguments ++ [')'])
  | .object entries => '{' :: (l.opening ++ (entriesText l false entries ++ (l.closing ++ ['}'])))

/-- Values in a row, the first of them behind a comma if `apart`. -/
def itemsText (l : Layout) (apart : Bool) : List Value → List Char
  | [] => []
  | v :: more => (if apart then ',' :: l.gap else []) ++ (v.text l ++ itemsText l true more)

/-- An entry as it is written. -/
def Entry.text (l : Layout) : Entry → List Char
  | .shorthand key => key.chars
  | .pair key v => key.chars ++ ':' :: ' ' :: v.text l

/-- Entries in a row, the first of them behind a comma if `apart`. -/
def entriesText (l : Layout) (apart : Bool) : List Entry → List Char
  | [] => []
  | e :: more => (if apart then ',' :: l.gap else []) ++ (e.text l ++ entriesText l true more)

end

/-- The inside of an object and all that stands behind it. -/
def objectTail (l : Layout) (entries : List Entry) : List Char :=
  l.opening ++ (entriesText l false entries ++ (l.closing ++ '}' :: ';' :: l.ending))

/-- A script that exports an object. -/
def objectText (l : Layout) (entries : List Entry) : List Char :=
  "module.exports = \x7b".toList ++ objectTail l entries

variable {c : Char} {s : List Char}

/-! ### Characters of names and numbers -/

/-- A character of a name or a number. -/
def isAtomChar (c : Char) : Bool := isDottedChar c || c == '$'

theorem isAtomChar_of_isWordChar (h : isWordChar c = true) : isAtomChar c = true := by
  rw [isAtomChar, isDottedChar, h, Bool.true_or, Bool.true_or]

theorem isBlank_of_isAtomChar (h : isAtomChar c = true) : isBlank c = false := by
  rcases Bool.or_eq_true_iff.1 h with h | h
  · exact isBlank_of_isDottedChar h
  · rw [beq_iff_eq.1 h]
    decide

theorem Identifier.isAtomChar (n : Identifier) : ∀ c ∈ n.chars, isAtomChar c = true := by
  intro c hc
  rcases Bool.or_eq_true_iff.1 (n.isName c hc) with h | h
  · exact isAtomChar_of_isWordChar h
  · rw [Export.isAtomChar, h, Bool.or_true]

theorem IsDigits.isAtomChar (h : IsDigits s) : ∀ c ∈ s, isAtomChar c = true := by
  intro c hc
  have hall : ∀ d ∈ "0123456789".toList, Export.isAtomChar d = true := by decide
  exact hall c (List.contains_iff_mem.1 (h.2 c hc))

theorem Numeral.isAtomChar (n : Numeral) : ∀ c ∈ n.chars, isAtomChar c = true := by
  refine List.forall_mem_append.2 ⟨n.isWhole.isAtomChar, ?_⟩
  cases h : n.fraction? with
  | none => exact List.forall_mem_nil _
  | some f => exact List.forall_mem_cons.2 ⟨by decide, (n.isFraction f h).isAtomChar⟩

theorem Numeral.chars_ne_nil (n : Numeral) : n.chars ≠ [] :=
  List.append_ne_nil_of_left_ne_nil n.isWhole.1 _

/-! ### Characters of objects -/

/-- A character of an object. -/
def isObjectChar (c : Char) : Bool :=
  isBlank c || isAtomChar c || among ",:;()[]\x7b\x7d" c

theorem isObjectChar_of_isAtomChar (h : isAtomChar c = true) : isObjectChar c = true := by
  rw [isObjectChar, h, Bool.or_true, Bool.true_or]

theorem isObjectChar_of_blank (h : Blank s) : ∀ c ∈ s, isObjectChar c = true := by
  intro c hc
  rw [isObjectChar, h c hc, Bool.true_or, Bool.true_or]

theorem Key.isObjectChar (key : Key) : ∀ c ∈ key.chars, isObjectChar c = true := fun c hc =>
  isObjectChar_of_isAtomChar (isAtomChar_of_isWordChar (key.isWord.2 c hc))

theorem isObjectChar_separator (l : Layout) (apart : Bool) :
    ∀ c ∈ if apart then ',' :: l.gap else [], isObjectChar c = true := by
  cases apart with
  | false => exact List.forall_mem_nil _
  | true => exact List.forall_mem_cons.2 ⟨by decide, isObjectChar_of_blank l.blankGap⟩

mutual

theorem Value.isObjectChar_text (l : Layout) :
    ∀ v : Value, ∀ c ∈ v.text l, isObjectChar c = true
  | .name n => fun c hc => by
    rw [Value.text] at hc
    exact isObjectChar_of_isAtomChar (n.isAtomChar c hc)
  | .number n => fun c hc => by
    rw [Value.text] at hc
    exact isObjectChar_of_isAtomChar (n.isAtomChar c hc)
  | .array items => by
    rw [Value.text, List.forall_mem_cons, List.forall_mem_append]
    exact ⟨by decide, isObjectChar_itemsText l false items, by decide⟩
  | .call f arguments => by
    rw [Value.text, List.forall_mem_append, List.forall_mem_cons, List.forall_mem_append]
    exact ⟨fun c hc => isObjectChar_of_isAtomChar (f.isAtomChar c hc), by decide,
      isObjectChar_itemsText l false arguments, by decide⟩
  | .object entries => by
    rw [Value.text, List.forall_mem_cons, List.forall_mem_append, List.forall_mem_append,
      List.forall_mem_append]
    exact ⟨by decide, isObjectChar_of_blank l.blankOpening,
      isObjectChar_entriesText l false entries, isObjectChar_of_blank l.blankClosing, by decide⟩

theorem isObjectChar_itemsText (l : Layout) (apart : Bool) :
    ∀ items : List Value, ∀ c ∈ itemsText l apart items, isObjectChar c = true
  | [] => by
    rw [itemsText]
    exact List.forall_mem_nil _
  | v :: more => by
    rw [itemsText, List.forall_mem_append, List.forall_mem_append]
    exact ⟨isObjectChar_separator l apart, v.isObjectChar_text l,
      isObjectChar_itemsText l true more⟩

theorem Entry.isObjectChar_text (l : Layout) :
    ∀ e : Entry, ∀ c ∈ e.text l, isObjectChar c = true
  | .shorthand key => by
    rw [Entry.text]
    exact key.isObjectChar
  | .pair key v => by
    rw [Entry.text, List.forall_mem_append, List.forall_mem_cons, List.forall_mem_cons]
    exact ⟨key.isObjectChar, by decide, by decide, v.isObjectChar_text l⟩

theorem isObjectChar_entriesText (l : Layout) (apart : Bool) :
    ∀ entries : List Entry, ∀ c ∈ entriesText l apart entries, isObjectChar c = true
  | [] => by
    rw [entriesText]
    exact List.forall_mem_nil _
  | e :: more => by
    rw [entriesText, List.forall_mem_append, List.forall_mem_append]
    exact ⟨isObjectChar_separator l apart, e.isObjectChar_text l,
      isObjectChar_entriesText l true more⟩

end

theorem isObjectChar_objectTail (l : Layout) (entries : List Entry) :
    ∀ c ∈ objectTail l entries, isObjectChar c = true := by
  rw [objectTail, List.forall_mem_append, List.forall_mem_append, List.forall_mem_append,
    List.forall_mem_cons, List.forall_mem_cons]
  exact ⟨isObjectChar_of_blank l.blankOpening, isObjectChar_entriesText l false entries,
    isObjectChar_of_blank l.blankClosing, by decide, by decide, isObjectChar_of_blank l.blankEnding⟩

end CodeSurvey.Export
