/-!
Why a source file yields less than it should. A problem is reported beside the result, which then
holds what could still be found.
-/

namespace CodeSurvey

/-- What went wrong with a source file. -/
inductive Problem where
  /-- The file cannot be read as text. -/
  | fileNotFound
  /-- Neither the caller nor the extension names a language. -/
  | unknownLanguage
  /-- The language has neither a grammar nor a detector. -/
  | noDetector
  /-- The grammar rejects the source and the line scan finds nothing. -/
  | parseFailed
  /-- The grammar rejects the source, so a number is estimated from its text. -/
  | estimated
  /-- The language has no export surface. -/
  | unsupportedLanguage
  deriving DecidableEq, Repr

/-- The tag under which a problem is reported. -/
def Problem.tag : Problem → String
  | fileNotFound => "file_not_found"
  | unknownLanguage => "unknown_language"
  | noDetector => "no_detector"
  | parseFailed => "parse_failed"
  | estimated => "parse_failed_regex_fallback"
  | unsupportedLanguage => "unsupported_language"

end CodeSurvey
