import CodeSurvey.Distinct
import CodeSurvey.Proofs.Export.ObjectKeys

/-!
What is listed for an exported object. No bracket is counted: words between the commas of a value
are taken for keys, and the keys behind a value that holds an object are lost. Main statements: what
is listed is known for every object; if no word that is taken for a key happens to be one, it is the
keys if and only if there is no such word and only the last value holds an object.
-/

namespace CodeSurvey.Export

open Import Pattern Text

/-! ### What is taken for a key -/

/-- The word that a value is. -/
def Value.word? : Value → Option String
  | .name n => wordOf n.chars
  | .number n => wordOf n.chars
  | .array _ | .call _ _ | .object _ => none

mutual

/-- Some part of the value, or the value itself, is an object. -/
def Value.holdsObject : Value → Bool
  | .name _ | .number _ => false
  | .array items | .call _ items => itemsHoldObject items
  | .object _ => true

def itemsHoldObject : List Value → Bool
  | [] => false
  | v :: more => v.holdsObject || itemsHoldObject more

end

def Entry.holdsObject : Entry → Bool
  | .shorthand _ => false
  | .pair _ v => v.holdsObject

mutual

/-- What is taken for keys within a value. -/
def Value.strays : Value → List String
  | .name _ | .number _ => []
  | .array items | .call _ items => itemStrays false items
  | .object entries => entryNames false entries

/-- What is taken for keys within values in a row: words between two commas, and what is within the
    values up to the first that holds an object. -/
def itemStrays (apart : Bool) : List Value → List String
  | [] => []
  | v :: more =>
    (if apart && !more.isEmpty then v.word?.toList else []) ++
      (v.strays ++ if v.holdsObject then [] else itemStrays true more)

/-- What is taken for keys within an entry, besides its key. -/
def Entry.strays : Entry → List String
  | .shorthand _ => []
  | .pair _ v => v.strays

/-- What is taken for keys in entries in a row: keys behind a comma, and what is within the entries
    up to the first that holds an object. -/
def entryNames (apart : Bool) : List Entry → List String
  | [] => []
  | e :: more =>
    (if apart then [e.key.name] else []) ++
      (e.strays ++ if e.holdsObject then [] else entryNames true more)

end

/-- No value has a word that is taken for a key, and only the last one holds an object. -/
def Flat (entries : List Entry) : Prop :=
  (∀ e ∈ entries, e.strays = []) ∧ ∀ e ∈ entries.dropLast, e.holdsObject = false

variable (l : Layout) {b : List Char} {c : Char}

/-! ### Reading values and entries -/

theorem firstKey_value (hb : Blank b) (v : Value) (hc : c ∈ [',', ']', ')']) (t : List Char) :
    firstKey (b ++ (v.text l ++ c :: t)) = if c == ',' then v.word? else none := by
  have hbracket : ∀ {s d more}, (∀ e ∈ s, isAtomChar e = true) → d ∈ ['[', '(', '\x7b'] →
      firstKey (b ++ (s ++ d :: more)) = none := by
    intro s d more hs hd
    have hall : ∀ d ∈ ['[', '(', '\x7b'], endsPiece d = false ∧ isBlank d = false ∧
      isWordChar d = false ∧ d ≠ ':' := by decide
    obtain ⟨hends, hblank, hnone, hcolon⟩ := hall d hd
    exact firstKey_eq_none hb hs hends hblank hnone hcolon more
  cases v with
  | name n =>
    rw [Value.text]
    exact firstKey_atom hb n.ne_nil n.isAtomChar hc t
  | number n =>
    rw [Value.text]
    exact firstKey_atom hb n.chars_ne_nil n.isAtomChar hc t
  | array items =>
    rw [Value.text, Value.word?, ite_self]
    exact hbracket (s := []) (List.forall_mem_nil _) (by decide)
  | call f arguments =>
    rw [Value.text, Value.word?, ite_self, List.append_assoc]
    exact hbracket f.isAtomChar (by decide)
  | object entries =>
    rw [Value.text, Value.word?, ite_self]
    exact hbracket (s := []) (List.forall_mem_nil _) (by decide)

/-- Behind a comma a piece begins. -/
theorem keysBehind_separator (apart : Bool) (s : List Char) :
    keysBehind ((if apart then ',' :: l.gap else []) ++ s) =
      (if apart then (firstKey (l.gap ++ s)).toList else []) ++ keysBehind s := by
  cases apart with
  | false => rfl
  | true =>
    rw [if_pos rfl, if_pos rfl, List.cons_append, keysBehind_comma, keysIn,
      keysBehind_append (inPiece_of_blank l.blankGap)]

/-- A text goes on behind values in a row with a comma or with the bracket that closes them. -/
theorem exists_cons_itemsText (more : List Value) (hc : c ∈ [']', ')']) (rest : List Char) :
    ∃ d t, itemsText l true more ++ c :: rest = d :: t ∧ d ∈ [',', ']', ')'] ∧
      (d == ',') = !more.isEmpty := by
  cases more with
  | nil =>
    have hall : ∀ c ∈ [']', ')'], (c == ',') = false := by decide
    exact ⟨c, rest, by rw [itemsText]; rfl, List.mem_cons_of_mem _ hc, hall c hc⟩
  | cons v more => exact ⟨',', _, by rw [itemsText]; rfl, by decide, rfl⟩

/-- Between two commas a value is a key if it is a word. -/
theorem firstKey_item (v : Value) (more : List Value) (hc : c ∈ [']', ')']) (rest : List Char) :
    firstKey (l.gap ++ (v.text l ++ (itemsText l true more ++ c :: rest))) =
      if more.isEmpty then none else v.word? := by
  obtain ⟨d, t, heq, hd, hcomma⟩ := exists_cons_itemsText l more hc rest
  rw [heq, firstKey_value l l.blankGap v hd t, hcomma]
  cases more <;> rfl

/-- A text goes on behind entries with a comma, or with blanks and the closing brace. -/
theorem exists_append_entriesText (more : List Entry) (rest : List Char) :
    ∃ b' d t, entriesText l true more ++ (l.closing ++ '}' :: rest) = b' ++ d :: t ∧ Blank b' ∧
      endsPiece d = true := by
  cases more with
  | nil => exact ⟨l.closing, '}', rest, by rw [entriesText]; rfl, l.blankClosing, by decide⟩
  | cons e more => exact ⟨[], ',', _, by rw [entriesText]; rfl, by decide, by decide⟩

/-- Every entry begins with its key. -/
theorem firstKey_entry (hb : Blank b) (e : Entry) (more : List Entry) (rest : List Char) :
    firstKey (b ++ (e.text l ++ (entriesText l true more ++ (l.closing ++ '}' :: rest)))) =
      some e.key.name := by
  cases e with
  | shorthand key =>
    obtain ⟨b', d, t, heq, hb', hd⟩ := exists_append_entriesText l more rest
    rw [Entry.text, heq]
    exact firstKey_of_word hb key.isWord hb' hd t
  | pair key v =>
    rw [Entry.text, List.append_assoc]
    exact firstKey_of_colon hb key.isWord _

mutual

/-- Behind a value that holds an object nothing is found. -/
theorem keysBehind_value : ∀ (v : Value) (rest : List Char),
    keysBehind (v.text l ++ rest) = v.strays ++ if v.holdsObject then [] else keysBehind rest
  | .name n, rest => by
    rw [Value.text, Value.strays, Value.holdsObject,
      keysBehind_append (inPiece_of_isAtomChar n.isAtomChar)]
    rfl
  | .number n, rest => by
    rw [Value.text, Value.strays, Value.holdsObject,
      keysBehind_append (inPiece_of_isAtomChar n.isAtomChar)]
    rfl
  | .array items, rest => by
    have hitems := keysBehind_items false items (c := ']') (by decide) rest
    have hopen : ∀ c ∈ ['['], endsPiece c = false := by decide
    rw [Value.text, Value.strays, Value.holdsObject, ← hitems]
    simpa using keysBehind_append hopen (itemsText l false items ++ ']' :: rest)
  | .call f arguments, rest => by
    have hitems := keysBehind_items false arguments (c := ')') (by decide) rest
    have hopen : ∀ c ∈ f.chars ++ ['('], endsPiece c = false :=
      List.forall_mem_append.2 ⟨inPiece_of_isAtomChar f.isAtomChar, by decide⟩
    rw [Value.text, Value.strays, Value.holdsObject, ← hitems]
    simpa using keysBehind_append hopen (itemsText l false arguments ++ ')' :: rest)
  | .object entries, rest => by
    have hentries := keysBehind_entries false entries rest
    have hopen : ∀ c ∈ '\x7b' :: l.opening, endsPiece c = false :=
      List.forall_mem_cons.2 ⟨by decide, inPiece_of_blank l.blankOpening⟩
    rw [Value.text, Value.strays, Value.holdsObject, if_pos rfl, List.append_nil, ← hentries]
    simpa using keysBehind_append hopen
      (entriesText l false entries ++ (l.closing ++ '}' :: rest))

theorem keysBehind_items (apart : Bool) : ∀ (items : List Value) {c : Char}, c ∈ [']', ')'] →
    ∀ rest, keysBehind (itemsText l apart items ++ c :: rest) =
      itemStrays apart items ++ if itemsHoldObject items then [] else keysBehind rest
  | [], c, hc, rest => by
    have hall : ∀ c ∈ [']', ')'], endsPiece c = false := by decide
    rw [itemsText, itemStrays, itemsHoldObject]
    exact keysBehind_append (List.forall_mem_singleton.2 (hall c hc)) rest
  | v :: more, c, hc, rest => by
    have hfirst := firstKey_item l v more hc rest
    have hvalue := keysBehind_value v (itemsText l true more ++ c :: rest)
    rw [keysBehind_items true more hc rest] at hvalue
    rw [itemsText, List.append_assoc, List.append_assoc, keysBehind_separator, hfirst, hvalue,
      itemStrays, itemsHoldObject]
    cases apart <;> cases more.isEmpty <;> cases v.holdsObject <;> simp

theorem keysBehind_entry : ∀ (e : Entry) (rest : List Char),
    keysBehind (e.text l ++ rest) = e.strays ++ if e.holdsObject then [] else keysBehind rest
  | .shorthand key, rest => by
    rw [Entry.text, Entry.strays, Entry.holdsObject,
      keysBehind_append (inPiece_of_isAtomChar (isAtomChar_of_isWord key.isWord))]
    rfl
  | .pair key v, rest => by
    have hvalue := keysBehind_value v rest
    have hkey : ∀ c ∈ key.chars ++ [':', ' '], endsPiece c = false :=
      List.forall_mem_append.2
        ⟨inPiece_of_isAtomChar (isAtomChar_of_isWord key.isWord), by decide⟩
    rw [Entry.text, Entry.strays, Entry.holdsObject, ← hvalue]
    simpa using keysBehind_append hkey (v.text l ++ rest)

theorem keysBehind_entries (apart : Bool) : ∀ (entries : List Entry) (rest : List Char),
    keysBehind (entriesText l apart entries ++ (l.closing ++ '}' :: rest)) =
      entryNames apart entries
  | [], rest => by
    rw [entriesText, entryNames]
    exact keysBehind_append (inPiece_of_blank l.blankClosing) _
  | e :: more, rest => by
    have hentry := keysBehind_entry e (entriesText l true more ++ (l.closing ++ '}' :: rest))
    rw [keysBehind_entries true more rest] at hentry
    rw [entriesText, List.append_assoc, List.append_assoc, keysBehind_separator,
      firstKey_entry l l.blankGap, hentry, entryNames]
    cases apart <;> rfl

end

/-- In an exported object the first key stands behind the brace and not behind a comma. -/
theorem keysIn_objectTail (entries : List Entry) :
    keysIn (objectTail l entries) = entryNames true entries := by
  have hopening := inPiece_of_blank l.blankOpening
  have hbehind := keysBehind_entries l false entries (';' :: l.ending)
  rw [keysIn, objectTail, keysBehind_append hopening, hbehind]
  cases entries with
  | nil =>
    have hblank : Blank (l.opening ++ l.closing) :=
      List.forall_mem_append.2 ⟨l.blankOpening, l.blankClosing⟩
    have hnone : firstKey (l.opening ++ l.closing ++ '}' :: ';' :: l.ending) = none := by
      rw [firstKey_of_end (inPiece_of_blank hblank) (by decide), keyOf_of_blank hblank]
    rw [entriesText, List.nil_append, ← List.append_assoc, hnone, entryNames, entryNames]
    rfl
  | cons e more =>
    have hfirst := firstKey_entry l l.blankOpening e more (';' :: l.ending)
    rw [entriesText, if_neg Bool.false_ne_true, List.nil_append, List.append_assoc, hfirst,
      entryNames, entryNames]
    rfl

/-! ### What is found -/

theorem notMem_objectTail_nil : '\x7b' ∉ objectTail l [] := by
  rw [objectTail, entriesText]
  simp only [List.mem_append, List.mem_cons, List.not_mem_nil, false_or, not_or]
  exact ⟨l.blankOpening.notMem (by decide), l.blankClosing.notMem (by decide), by decide,
    by decide, l.blankEnding.notMem (by decide)⟩

theorem entryNames_eq_nil_iff {entries : List Entry} :
    entryNames true entries = [] ↔ entries = [] := by
  cases entries <;> simp [entryNames]

/-- What is found in an exported object. -/
theorem assignedNames_eq_entryNames (entries : List Entry) :
    assignedNames (objectText l entries) = (entryNames true entries).eraseDups := by
  have hbrace : '}' ∈ objectTail l entries := by
    simp only [objectTail, List.mem_append, List.mem_cons, true_or, or_true]
  obtain ⟨s, t, htail, hs⟩ := List.eq_append_cons_of_mem hbrace
  have hnone : ∀ c, isObjectChar c = false → c ∉ s ++ '}' :: t := fun c hc hmem =>
    Bool.false_ne_true (hc.symm.trans (isObjectChar_objectTail l entries c (htail ▸ hmem)))
  have hempty : s = [] → '\x7b' ∉ t := by
    rintro rfl hmem
    -- nothing is found before a brace at the start, so there are no entries
    have hkeys := keysIn_objectTail l entries
    rw [htail, List.nil_append, keysIn_brace] at hkeys
    obtain rfl := entryNames_eq_nil_iff.1 hkeys.symm
    exact notMem_objectTail_nil l (htail ▸ List.mem_cons_of_mem _ hmem)
  have hnames := assignedNames_eq (hnone '=' (by decide)) (hnone '/' (by decide)) hs hempty
  unfold objectText
  rw [htail, hnames, ← htail, keysIn_objectTail]

/-! ### What is listed -/

theorem mem_entryNames {x : String} {apart : Bool} {entries : List Entry}
    (h : x ∈ entryNames apart entries) :
    x ∈ entries.map (·.key.name) ∨ ∃ e ∈ entries, x ∈ e.strays := by
  induction entries generalizing apart with
  | nil =>
    rw [entryNames] at h
    exact absurd h List.not_mem_nil
  | cons e more ih =>
    rw [entryNames, List.mem_append, List.mem_append] at h
    rcases h with hkey | hstray | hmore
    · cases apart with
      | false => exact absurd hkey List.not_mem_nil
      | true => exact .inl (List.mem_cons.2 (.inl (List.mem_singleton.1 hkey)))
    · exact .inr ⟨e, List.mem_cons_self .., hstray⟩
    · cases he : e.holdsObject with
      | true =>
        rw [he] at hmore
        exact absurd hmore List.not_mem_nil
      | false =>
        rw [he] at hmore
        rcases ih hmore with hmem | ⟨e', he', hstray⟩
        · exact .inl (List.mem_cons_of_mem _ hmem)
        · exact .inr ⟨e', List.mem_cons_of_mem _ he', hstray⟩

theorem flat_cons {e : Entry} {more : List Entry} :
    Flat (e :: more) ↔ e.strays = [] ∧ (more ≠ [] → e.holdsObject = false) ∧ Flat more := by
  cases more with
  | nil => simp [Flat]
  | cons e' more =>
    simp only [Flat, List.forall_mem_cons, List.dropLast_cons_cons, ne_eq, reduceCtorEq,
      not_false_eq_true, true_imp_iff]
    tauto

/-- Among flat entries the keys are found. -/
theorem entryNames_of_flat {entries : List Entry} (h : Flat entries) :
    entryNames true entries = entries.map (·.key.name) := by
  induction entries with
  | nil => rw [entryNames, List.map_nil]
  | cons e more ih =>
    obtain ⟨hstrays, hobject, hmore⟩ := flat_cons.1 h
    rw [entryNames, hstrays, ih hmore]
    cases more with
    | nil => simp
    | cons e' more => simp [hobject]

/-- If no stray is a key, the keys are found only among flat entries. -/
theorem flat_of_eraseDups_eq {entries : List Entry} (hdistinct : (entries.map (·.key.name)).Nodup)
    (hfresh : ∀ e ∈ entries, ∀ x ∈ e.strays, x ∉ entries.map (·.key.name))
    (h : (entryNames true entries).eraseDups = entries.map (·.key.name)) : Flat entries := by
  induction entries with
  | nil => exact ⟨by simp, by simp⟩
  | cons e more ih =>
    have hkey : e.key.name ∉ more.map (·.key.name) := (List.nodup_cons.1 hdistinct).1
    obtain ⟨hhere, hlater⟩ := List.forall_mem_cons.1 hfresh
    have hstrays : e.strays = [] := by
      refine List.eq_nil_iff_forall_not_mem.2 fun x hx => hhere x hx ?_
      rw [← h, List.mem_eraseDups, entryNames]
      simp [hx]
    have hbehind : e.key.name ∉ if e.holdsObject then [] else entryNames true more := by
      split
      · exact List.not_mem_nil
      · intro hmem
        rcases mem_entryNames hmem with hmem | ⟨e', he', hmem⟩
        · exact hkey hmem
        · exact hlater e' he' _ hmem (List.mem_cons_self ..)
    have hrest : (if e.holdsObject then [] else entryNames true more).eraseDups =
        more.map (·.key.name) := by
      rw [entryNames, hstrays, if_pos rfl, List.nil_append, List.singleton_append,
        Distinct.eraseDups_cons_of_notMem hbehind, List.map_cons] at h
      exact (List.cons.inj h).2
    refine flat_cons.2 ⟨hstrays, fun hne => ?_, ?_⟩
    · cases he : e.holdsObject with
      | false => rfl
      | true =>
        rw [he] at hrest
        exact absurd (List.map_eq_nil_iff.1 hrest.symm) hne
    · cases he : e.holdsObject with
      | false =>
        rw [he] at hrest
        refine ih (List.nodup_cons.1 hdistinct).2 (fun e' he' x hx hmem => ?_) hrest
        exact hlater e' he' x hx (List.mem_cons_of_mem _ hmem)
      | true =>
        rw [he] at hrest
        rw [List.map_eq_nil_iff.1 hrest.symm]
        exact ⟨by simp, by simp⟩

/-- What is listed for an exported object. If no stray is a key, it is the keys if and only if the
    entries are flat. -/
theorem assignedNames_objectText (entries : List Entry)
    (hdistinct : (entries.map (·.key.name)).Nodup) :
    assignedNames (objectText l entries) = (entryNames true entries).eraseDups ∧
      (Flat entries → assignedNames (objectText l entries) = entries.map (·.key.name)) ∧
      ((∀ e ∈ entries, ∀ x ∈ e.strays, x ∉ entries.map (·.key.name)) →
        assignedNames (objectText l entries) = entries.map (·.key.name) → Flat entries) := by
  rw [assignedNames_eq_entryNames]
  refine ⟨rfl, fun hflat => ?_, fun hfresh => flat_of_eraseDups_eq hdistinct hfresh⟩
  rw [entryNames_of_flat hflat, Distinct.eraseDups_of_nodup hdistinct]

/-- Values without strays, the last of them with an object. -/
theorem assignedNames_objectText_flat :
    assignedNames
        "module.exports = \x7b run: go, stop, list: [2.5, x], made: f(\x7b a \x7d) \x7d;".toList =
      ["run", "stop", "list", "made"] := by
  let l : Layout := ⟨[' '], [' '], [' '], [], by decide, by decide, by decide, by decide⟩
  let entries : List Entry :=
    [.pair ⟨"run".toList, by decide⟩ (.name ⟨"go".toList, by decide, by decide⟩),
      .shorthand ⟨"stop".toList, by decide⟩,
      .pair ⟨"list".toList, by decide⟩
        (.array [.number ⟨['2'], some ['5'], by decide, by decide⟩,
          .name ⟨['x'], by decide, by decide⟩]),
      .pair ⟨"made".toList, by decide⟩
        (.call ⟨['f'], by decide, by decide⟩ [.object [.shorthand ⟨['a'], by decide⟩]])]
  have hnames := (assignedNames_objectText l entries (by decide)).2.1 ⟨by decide, by decide⟩
  have htext : objectText l entries =
      "module.exports = \x7b run: go, stop, list: [2.5, x], made: f(\x7b a \x7d) \x7d;".toList := by
    decide +kernel
  rw [← htext, hnames]
  decide

/-- Behind an object in a value the keys are lost, and inside it they are found. -/
theorem assignedNames_objectText_ne :
    let l : Layout := ⟨[' '], [' '], [' '], [], by decide, by decide, by decide, by decide⟩
    let key (c : Char) (h : isWordChar c = true) : Key := ⟨[c], by simp, by simpa using h⟩
    let number (c : Char) (h : among "0123456789" c = true) : Value :=
      .number ⟨[c], none, ⟨by simp, by simpa using h⟩, by simp⟩
    let entries : List Entry :=
      [.pair (key 'a' rfl) (.object [.pair (key 'b' rfl) (number '1' rfl),
        .pair (key 'c' rfl) (number '2' rfl)]), .shorthand (key 'd' rfl)]
    objectText l entries = "module.exports = \x7b a: \x7b b: 1, c: 2 \x7d, d \x7d;".toList ∧
      assignedNames (objectText l entries) ≠ entries.map (·.key.name) := by
  decide +kernel

end CodeSurvey.Export
