import TagLint.Toml.Value
/-!
# Space and comments in TOML

Lines end with a line feed, which a carriage return may precede; a carriage return alone is not allowed
anywhere. A comment runs to the end of its line and holds no controls but tabs.
-/

namespace TagLint.Toml

/-- Space within a line. -/
def isSpace (c : Char) : Bool := c == ' ' || c == '\t'

/-- The characters that comments and strings may hold as they are: no controls but tabs. -/
def isPrintable (c : Char) : Bool := c == '\t' || (' ' ≤ c && c ≠ '\x7F')

/-- Passes over space within a line. -/
def skipSpace (text : List Char) : List Char := text.dropWhile isSpace

/-- What follows a line break at the front of a text. -/
def newline? : List Char → Option (List Char)
  | '\n' :: rest => some rest
  | '\r' :: '\n' :: rest => some rest
  | _ => none

/-- Passes over a comment up to the end of its line, if one begins here. -/
def skipComment : List Char → List Char
  | '#' :: text => text.dropWhile isPrintable
  | text => text

/-- Passes over the end of a line, with space and a comment before it. The end of the text ends a line. -/
def endLine? (text : List Char) : Option (List Char) :=
  match skipComment (skipSpace text) with
  | [] => some []
  | rest => newline? rest

/-- Passes over space, comments and line breaks; `comment` tells whether the text begins inside a comment. -/
def skipBlankFrom (comment : Bool) : List Char → List Char
  | [] => []
  | '\n' :: text => skipBlankFrom false text
  | '\r' :: '\n' :: text => skipBlankFrom false text
  | c :: text =>
    if comment then if isPrintable c then skipBlankFrom true text else c :: text
    else if isSpace c then skipBlankFrom false text
    else if c = '#' then skipBlankFrom true text
    else c :: text

/-- Passes over space, comments and line breaks. -/
def skipBlank (text : List Char) : List Char := skipBlankFrom false text

/-- Passes over space and line breaks. -/
def skipSpaceLines : List Char → List Char
  | '\r' :: '\n' :: text => skipSpaceLines text
  | c :: text => if isSpace c || c == '\n' then skipSpaceLines text else c :: text
  | [] => []

end TagLint.Toml
