/-!
# Why a pattern is refused

Either the text is no pattern, or the expression it writes is larger than the limit on
what one match may cost.
-/

namespace Grove

inductive RegexError where
  | groupUnclosed
  | groupUnopened
  | groupNameInvalid
  | groupNameRepeated
  | lookAround
  | flagUnknown
  | flagRepeated
  | flagsUnfinished
  | nothingToRepeat
  | countUnclosed
  | countMissing
  | countTooLarge
  | countReversed
  | escapeUnfinished
  | escapeUnknown
  | backReference
  | notHexadecimal
  | noCharacter
  | wordEdgeUnknown
  | classUnclosed
  | classRangeReversed
  | classRangeEnd
  | classEscape
  | propertyUnknown
  | unicodeRequired
  | notText
  | tooNested
  | tooLarge
deriving DecidableEq

namespace RegexError

/-- The largest cost of an expression, in bytes of its compiled form. -/
def sizeLimit : Nat := 10 * 1024 * 1024

def reason : RegexError → String
  | .groupUnclosed => "unclosed group"
  | .groupUnopened => "unopened group"
  | .groupNameInvalid => "invalid capture group name"
  | .groupNameRepeated => "duplicate capture group name"
  | .lookAround => "look-around, including look-ahead and look-behind, is not supported"
  | .flagUnknown => "unrecognized flag"
  | .flagRepeated => "duplicate flag"
  | .flagsUnfinished => "flags end too early"
  | .nothingToRepeat => "repetition operator missing expression"
  | .countUnclosed => "unclosed counted repetition"
  | .countMissing => "repetition quantifier expects a valid decimal"
  | .countTooLarge => "decimal literal invalid"
  | .countReversed => "invalid repetition count range, the start must be <= the end"
  | .escapeUnfinished => "incomplete escape sequence, reached end of pattern prematurely"
  | .escapeUnknown => "unrecognized escape sequence"
  | .backReference => "backreferences are not supported"
  | .notHexadecimal => "invalid hexadecimal digit"
  | .noCharacter => "hexadecimal literal is not a Unicode scalar value"
  | .wordEdgeUnknown => "unrecognized special word boundary assertion"
  | .classUnclosed => "unclosed character class"
  | .classRangeReversed =>
    "invalid character class range, the start must be <= the end"
  | .classRangeEnd => "invalid range boundary, must be a literal"
  | .classEscape => "invalid escape sequence found in character class"
  | .propertyUnknown => "Unicode property not found"
  | .unicodeRequired => "Unicode not allowed here"
  | .notText => "pattern can match invalid UTF-8"
  | .tooNested => "exceed the maximum number of nested parentheses/brackets"
  | .tooLarge => ""

def message : RegexError → String
  | .tooLarge => "Compiled regex exceeds size limit of " ++ toString sizeLimit ++ " bytes."
  | e => "regex parse error: " ++ e.reason

end RegexError

end Grove
