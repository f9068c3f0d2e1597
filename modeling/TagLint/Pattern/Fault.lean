/-!
# What can be wrong with a pattern

A pattern is a regular expression. It can be badly written, or ask for characters that cannot be told apart:
patterns are matched without tables of Unicode, so neither classes of its characters nor their case variants
are known. `PatternFault.message` gives the wording.
-/

namespace TagLint

/-- How many groups, sets, repetitions, sequences and choices of a pattern may stand around one another. -/
def maxPatternHeight : Nat := 250

/-- Why a pattern cannot be used. -/
inductive PatternFault where
  -- Groups
  | unclosedGroup
  | unopenedGroup
  | lookAround
  | unclosedGroupName
  | emptyGroupName
  | invalidGroupName
  | repeatedGroupName
  -- Flags
  | unknownFlag
  | repeatedFlag
  | repeatedNegation
  | danglingNegation
  | unfinishedFlags
  -- Repetitions
  | missingOperand
  | unclosedCount
  | missingCount
  | largeCount
  | reversedCounts
  -- Escapes
  | unfinishedEscape
  | unknownEscape
  | backreference
  | invalidHexDigit
  | emptyHexNumber
  | invalidHexNumber
  | invalidPropertyLetter
  | unfinishedBoundary
  | unclosedBoundary
  | unknownBoundary
  -- Sets of characters
  | unclosedSet
  | invalidSetEscape
  | invalidRangeEnd
  | reversedRange
  -- Patterns that are well written
  | excessiveHeight
  | unicodeDisabled
  | invalidUtf8
  | unknownProperty
  | unknownPropertyValue
  | unknownClass
  | unknownCaseVariants
deriving DecidableEq

def PatternFault.message : PatternFault → String
  | .unclosedGroup => "unclosed group"
  | .unopenedGroup => "unopened group"
  | .lookAround => "look-around, including look-ahead and look-behind, is not supported"
  | .unclosedGroupName => "unclosed capture group name"
  | .emptyGroupName => "empty capture group name"
  | .invalidGroupName => "invalid capture group character"
  | .repeatedGroupName => "duplicate capture group name"
  | .unknownFlag => "unrecognized flag"
  | .repeatedFlag => "duplicate flag"
  | .repeatedNegation => "flag negation operator repeated"
  | .danglingNegation => "dangling flag negation operator"
  | .unfinishedFlags => "expected flag but got end of regex"
  | .missingOperand => "repetition operator missing expression"
  | .unclosedCount => "unclosed counted repetition"
  | .missingCount => "repetition quantifier expects a valid decimal"
  | .largeCount => "decimal literal invalid"
  | .reversedCounts => "invalid repetition count range, the start must be <= the end"
  | .unfinishedEscape => "incomplete escape sequence, reached end of pattern prematurely"
  | .unknownEscape => "unrecognized escape sequence"
  | .backreference => "backreferences are not supported"
  | .invalidHexDigit => "invalid hexadecimal digit"
  | .emptyHexNumber => "hexadecimal literal empty"
  | .invalidHexNumber => "hexadecimal literal is not a Unicode scalar value"
  | .invalidPropertyLetter => "invalid Unicode character class"
  | .unfinishedBoundary =>
    "found either the beginning of a special word boundary or a bounded repetition on a \\b with an opening " ++
      "brace, but no closing brace"
  | .unclosedBoundary =>
    "special word boundary assertion is either unclosed or contains an invalid character"
  | .unknownBoundary =>
    "unrecognized special word boundary assertion, valid choices are: start, end, start-half or end-half"
  | .unclosedSet => "unclosed character class"
  | .invalidSetEscape => "invalid escape sequence found in character class"
  | .invalidRangeEnd => "invalid range boundary, must be a literal"
  | .reversedRange => "invalid character class range, the start must be <= the end"
  | .excessiveHeight => s!"exceed the maximum number of nested parentheses/brackets ({maxPatternHeight})"
  | .unicodeDisabled => "Unicode not allowed here"
  | .invalidUtf8 => "pattern can match invalid UTF-8"
  | .unknownProperty => "Unicode property not found"
  | .unknownPropertyValue => "Unicode property value not found"
  | .unknownClass => "Unicode-aware Perl class not found (make sure the unicode-perl feature is enabled)"
  | .unknownCaseVariants =>
    "Unicode-aware case insensitivity matching is not available (make sure the unicode-case feature is enabled)"

end TagLint
