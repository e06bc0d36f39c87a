import CodeSurvey.Text.Basic
import CodeSurvey.Text.WordChar

/-!
Patterns over text with ordered choice. A pattern is run at a place of a text and hands every place
where it can end, best first, to a continuation; the first end that the continuation accepts
decides. Repetition tries the longest run first when it is greedy and the shortest first when not,
so the order of the ends is part of what a pattern means.

`run` is structural in the pattern; a repetition is structural in the text it still has to read.

A pattern may not tell small letters from capital ones. Besides its own capital, three small letters
of ASCII have others: `i` the dotted capital and the dotless letter, `s` the long letter, `k` the
sign of the kelvin.
-/

namespace CodeSurvey

/-- A pattern over text. -/
inductive Pattern where
  /-- The empty text. -/
  | nothing
  /-- One character of a set. -/
  | one (set : Char → Bool)
  /-- These characters in this order. -/
  | text (chars : List Char)
  /-- The first pattern, then the second. -/
  | cat (first second : Pattern)
  /-- The first pattern or, failing that, the second. -/
  | alt (first second : Pattern)
  /-- A run of at least `least` characters of a set, the longest first if `greedy`. -/
  | many (greedy : Bool) (least : Nat) (set : Char → Bool)
  /-- Any number of repetitions, the most first. -/
  | star (body : Pattern)
  /-- The pattern, its text remembered under a number. -/
  | group (number : Nat) (body : Pattern)
  /-- A place where the pattern could go on; reads nothing. -/
  | ahead (body : Pattern)
  /-- A place not just after a character of a set. -/
  | notAfter (set : Char → Bool)
  /-- A place between a word character and anything else. -/
  | wordEdge
  /-- The start of a line. -/
  | lineStart
  /-- The end of a line. -/
  | lineEnd
  /-- The end of the text, or the place before a last line feed. -/
  | textEnd

namespace Pattern

/-- The text that a group read: what lay ahead where it began, and how much of that it read. -/
structure Capture where
  number : Nat
  source : List Char
  length : Nat

/-- A place in a text, with the captures made on the way to it, last first. -/
structure Reading where
  /-- The character just before, none at the start of the text. -/
  before : Option Char
  rest : List Char
  /-- The number of characters before. -/
  offset : Nat
  captures : List Capture

/-- The place after `c`, the first of the characters ahead. -/
def Reading.past (r : Reading) (c : Char) (rest : List Char) : Reading :=
  { r with before := some c, rest, offset := r.offset + 1 }

/-- The place at the start of a text. -/
def Reading.atStart (text : List Char) : Reading := ⟨none, text, 0, []⟩

/-- Reads exactly `chars`. -/
def readText : List Char → Reading → Option Reading
  | [], r => some r
  | c :: cs, r =>
    match r.rest with
    | d :: rest => if c == d then readText cs (r.past d rest) else none
    | [] => none

/-- Runs of characters of `set` on `rest`, the text ahead of `r`, the longest first; at least
    `least` more are needed. -/
def runLongest {α : Type} (set : Char → Bool) (next : Reading → Option α) :
    Nat → List Char → Reading → Option α
  | least, [], r => if least == 0 then next r else none
  | least, c :: rest, r =>
    if set c then
      match runLongest set next (least - 1) rest (r.past c rest) with
      | some a => some a
      | none => if least == 0 then next r else none
    else if least == 0 then next r else none

/-- Runs of characters of `set` on `rest`, the text ahead of `r`, the shortest first; at least
    `least` more are needed. -/
def runShortest {α : Type} (set : Char → Bool) (next : Reading → Option α) :
    Nat → List Char → Reading → Option α
  | least, [], r => if least == 0 then next r else none
  | least, c :: rest, r =>
    match if least == 0 then next r else none with
    | some a => some a
    | none => if set c then runShortest set next (least - 1) rest (r.past c rest) else none

/-- Repetitions of `body`, the most first. Each of them reads something, so the characters ahead
    (the list) bound their number. -/
def runStar {α : Type} (body : Reading → (Reading → Option α) → Option α)
    (next : Reading → Option α) : List Char → Reading → Option α
  | [], r => next r
  | _ :: fuel, r =>
    match body r fun r' => if r.offset < r'.offset then runStar body next fuel r' else none with
    | some a => some a
    | none => next r

/-- A word character stands just before. -/
def Reading.afterWord (r : Reading) : Bool := r.before.any Text.isWordChar

/-- A word character stands just ahead. -/
def Reading.beforeWord (r : Reading) : Bool := r.rest.head?.any Text.isWordChar

/-- Runs a pattern at a place: `next` is offered every end of the pattern, best first, until it
    answers. -/
def run {α : Type} : Pattern → Reading → (Reading → Option α) → Option α
  | nothing, r, next => next r
  | one set, r, next =>
    match r.rest with
    | c :: rest => if set c then next (r.past c rest) else none
    | [] => none
  | text chars, r, next => (readText chars r).bind next
  | cat p q, r, next => run p r fun r' => run q r' next
  | alt p q, r, next =>
    match run p r next with
    | some a => some a
    | none => run q r next
  | many greedy least set, r, next =>
    if greedy then runLongest set next least r.rest r else runShortest set next least r.rest r
  | star p, r, next => runStar (fun r' next' => run p r' next') next r.rest r
  | group n p, r, next =>
    run p r fun r' =>
      next { r' with captures := ⟨n, r.rest, r'.offset - r.offset⟩ :: r'.captures }
  | ahead p, r, next => if (run p r some).isSome then next r else none
  | notAfter set, r, next => if r.before.any set then none else next r
  | wordEdge, r, next => if r.afterWord == r.beforeWord then none else next r
  | lineStart, r, next => if r.before.all (· == '\n') then next r else none
  | lineEnd, r, next => if r.rest.head?.all (· == '\n') then next r else none
  | textEnd, r, next => if r.rest.isEmpty || r.rest == ['\n'] then next r else none

/-- These patterns in this order. -/
def seq : List Pattern → Pattern
  | [] => nothing
  | [p] => p
  | p :: more => cat p (seq more)

/-- The first of these patterns that leads on. -/
def oneOf : List Pattern → Pattern
  | [] => one fun _ => false
  | [p] => p
  | p :: more => alt p (oneOf more)

/-- The pattern if it leads on, else the empty text. -/
def maybe (p : Pattern) : Pattern := alt p nothing

/-- These characters. -/
def lit (s : String) : Pattern := text s.toList

/-- Blanks, as many as there are. -/
def blanks : Pattern := many true 0 Text.isBlank

/-- Blanks, as many as there are and at least one. -/
def blanks1 : Pattern := many true 1 Text.isBlank

/-- Word characters, as many as there are and at least one. -/
def word : Pattern := many true 1 Text.isWordChar

/-- Characters outside a set, as many as there are. -/
def others (stop : Char → Bool) : Pattern := many true 0 fun c => !stop c

/-- Characters outside a set, as many as there are and at least one. -/
def others1 (stop : Char → Bool) : Pattern := many true 1 fun c => !stop c

/-- The character is one of these. -/
def among (chars : String) : Char → Bool := chars.toList.contains

/-! ### Letters in any form -/

/-- The letters that count as a small letter of ASCII without being it or its capital. -/
def otherForms (c : Char) : List Char :=
  if c == 'i' then ['\u0130', '\u0131'] else if c == 's' then ['\u017F']
  else if c == 'k' then ['\u212A'] else []

/-- The character counts as the small letter `c`. -/
def countsAs (c d : Char) : Bool := d.toLower == c || (otherForms c).contains d

/-- These small letters, each in any form. -/
def anyCase (s : String) : Pattern := seq (s.toList.map fun c => one (countsAs c))

end Pattern

end CodeSurvey
