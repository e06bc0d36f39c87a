import CodeSurvey.Pattern.Search

/-!
Tokens of ECMAScript. Each lexical class is a pattern. Whether a slash divides or opens a regular
expression, whether a backtick or an angle bracket opens a literal, is known to the grammar alone:
`Token.first` reads all of these as signs, and the grammar reads the literal from the same place
instead where one may stand.
-/

namespace CodeSurvey.Ecma

open Pattern

/-- A character that ends a line. -/
def isLineEnd (c : Char) : Bool :=
  c == '\n' || c == '\r' || c.toNat == 0x2028 || c.toNat == 0x2029

/-- A character that separates tokens, line ends included. -/
def isSpace (c : Char) : Bool :=
  let n := c.toNat
  if n < 128 then n == 32 || (9 ≤ n && n ≤ 13)
  else n == 0xA0 || n == 0x1680 || (0x2000 ≤ n && n ≤ 0x200B) || n == 0x2028 || n == 0x2029 ||
    n == 0x202F || n == 0x205F || n == 0x2060 || n == 0x3000 || n == 0xFEFF

/-- A character inside a name: a letter, digit, underscore or dollar sign, or any character beyond
    ASCII that is no space. -/
def isNameChar (c : Char) : Bool :=
  if c.toNat < 128 then c.isAlphanum || c == '_' || c == '$' || c.toNat == 127 else !isSpace c

/-- A character that a name may start with. -/
def isNameStart (c : Char) : Bool := isNameChar c && !c.isDigit

def isHexDigit (c : Char) : Bool := c.isDigit || among "abcdefABCDEF" c

def hexDigit : Pattern := one isHexDigit

/-- Four hexadecimal digits, or any number of them in braces, after a backslash and a `u`. -/
def unicodeEscape : Pattern :=
  seq [lit "\\u",
    alt (seq [hexDigit, hexDigit, hexDigit, hexDigit])
      (seq [lit "\x7b", many true 1 isHexDigit, lit "\x7d"])]

/-- An escape in a string or template. -/
def stringEscape : Pattern :=
  oneOf [unicodeEscape, seq [lit "\\x", hexDigit, hexDigit], lit "\\\r\n",
    seq [lit "\\", one (!among "xu" ·)]]

/-- A name, perhaps with escapes in it. -/
def namePattern : Pattern :=
  seq [alt (one isNameStart) unicodeEscape, star (alt (one isNameChar) unicodeEscape)]

/-- Digits of a set, single underscores between them allowed. -/
def digits (set : Char → Bool) : Pattern :=
  seq [one set, star (alt (one set) (seq [lit "_", one set]))]

def decimalDigits : Pattern := digits Char.isDigit

def exponent : Pattern :=
  seq [one (among "eE"), maybe (one (among "+-")), decimalDigits]

/-- Digits after a base mark, perhaps with the mark of a big integer. -/
def based (mark : String) (set : Char → Bool) : Pattern :=
  seq [lit "0", one (among mark), digits set, maybe (lit "n")]

/-- The digits that a fraction or an exponent may follow: at most one zero stands in front. -/
def wholePart : Pattern :=
  alt (seq [maybe (lit "0"), one fun c => c.isDigit && c != '0',
      maybe (seq [maybe (lit "_"), decimalDigits])])
    (lit "0")

/-- A number. -/
def numberPattern : Pattern :=
  oneOf [based "xX" isHexDigit, based "oO" (among "01234567"), based "bB" (among "01"),
    seq [decimalDigits, lit "n"],
    seq [wholePart, lit ".", maybe decimalDigits, maybe exponent],
    seq [wholePart, exponent],
    decimalDigits,
    seq [lit ".", decimalDigits, maybe exponent]]

/-- A string between two quotes of one kind. -/
def stringIn (quote : Char) : Pattern :=
  seq [one (· == quote),
    star (alt (one fun c => c != quote && c != '\\' && c != '\n' && c != '\r') stringEscape),
    one (· == quote)]

/-- A string in single or double quotes. -/
def stringPattern : Pattern := alt (stringIn '\'') (stringIn '"')

/-- A regular expression with its flags, which are small letters. -/
def regexPattern : Pattern :=
  let escape := seq [lit "\\", one (!isLineEnd ·)]
  let set := seq [lit "[", star (alt (one fun c => !among "]\\" c && !isLineEnd c) escape), lit "]"]
  let piece := fun (stop : String) =>
    oneOf [one fun c => !among stop c && !isLineEnd c, escape, set]
  seq [lit "/", piece "*/\\[", star (piece "/\\["), lit "/", many true 0 Char.isLower]

/-- The characters of a template up to its end or to a substitution. -/
def templatePattern : Pattern :=
  star (oneOf [one (!among "\x60\\$" ·), seq [lit "$", ahead (one (· != '{'))], stringEscape])

/-- A comment from its mark to the end of the line. -/
def lineComment (mark : String) : Pattern := seq [lit mark, others isLineEnd]

/-- Spaces, comments to the end of the line and closed block comments. -/
def separators : List Pattern :=
  [many true 1 isSpace, lineComment "//", lineComment "<!--",
    seq [lit "/*", many false 0 (fun _ => true), lit "*/"]]

/-- The characters between two tokens. -/
def triviaPattern : Pattern := star (oneOf separators)

/-- The characters between two tokens from a place on with only such characters before it on its
    line: there the closing mark of a comment in markup begins a comment too. -/
def lineTriviaPattern : Pattern := star (oneOf (lineComment "-->" :: separators))

/-- The characters in front of the first token of a text, which may begin a line. -/
def trivia (atLineStart : Bool) (source : List Char) : List Char :=
  let first := triviaPattern.leading source
  if atLineStart || first.any isLineEnd then
    first ++ lineTriviaPattern.leading (source.drop first.length)
  else first

/-- A token. -/
inductive Token where
  /-- Punctuation or an operator. -/
  | sign (text : String)
  /-- A name or a keyword. -/
  | word (text : String)
  /-- A name spelled with escapes, which is no keyword. -/
  | escapedWord (text : String)
  /-- A name with a hash sign in front. -/
  | privateWord (text : String)
  | number (text : String)
  | string (text : String)
  /-- The end of the source. -/
  | stop
  /-- No token starts here. -/
  | invalid
  deriving DecidableEq, Repr

/-- Punctuation and operators, each before those that it starts with. -/
def signs : List (List Char) :=
  [">>>=", "...", "===", "!==", "**=", "<<=", ">>=", ">>>", "&&=", "||=", "??=", "=>", "==", "!=",
    "<=", ">=", "<<", ">>", "&&", "||", "??", "?.", "**", "++", "--", "+=", "-=", "*=", "/=", "%=",
    "&=", "|=", "^=", "\x7b", "\x7d", "(", ")", "[", "]", ";", ",", "<", ">", "+", "-", "*", "/",
    "%", "&", "|", "^", "!", "~", "?", ":", "=", ".", "@", "\x60"].map String.toList

/-- The sign that a text starts with. The mark of an optional access is none before a digit: there
    a conditional goes on with a number. -/
def Token.sign? (source : List Char) : Option (List Char) :=
  (signs.find? (·.isPrefixOf source)).map fun s =>
    if s == ['?', '.'] && (source.drop 2).head?.any Char.isDigit then ['?'] else s

/-- The first token of a text that does not start with trivia, and what follows it. -/
def Token.first (source : List Char) : Token × List Char :=
  let take := fun (p : Pattern) (make : String → Token) =>
    match p.matchStart? source with
    | some m => (make (String.ofList m.text), source.drop m.length)
    | none => (.invalid, source)
  match source with
  | [] => (.stop, [])
  | c :: rest =>
    if isNameStart c || c == '\\' then
      take namePattern fun s => if s.toList.contains '\\' then .escapedWord s else .word s
    else if c.isDigit || (c == '.' && rest.head?.any Char.isDigit) then
      match take numberPattern .number with
      | (token, after) => if after.head?.any isNameChar then (.invalid, source) else (token, after)
    else if c == '"' || c == '\'' then take stringPattern .string
    else if c == '#' then take (seq [lit "#", namePattern]) .privateWord
    else match sign? source with
      | some s => (.sign (String.ofList s), source.drop s.length)
      | none => (.invalid, source)

end CodeSurvey.Ecma
