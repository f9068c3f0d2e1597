import TagLint.Text.Alphabetic
import TagLint.Text.Numeric
/-!
# Names and the space between them

Which characters begin and continue a name, and which separate the parts of a tag. Within ASCII the three
classes are listed here; above it names are made of the letters and numerals of Unicode.
-/

namespace TagLint

/-- The four characters that separate markup: space, tab, line feed and carriage return. -/
def isSpace (c : Char) : Bool := c == ' ' || c == '\t' || c == '\n' || c == '\r'

/-- Whether a character may begin a name: a letter, an underscore or a colon. -/
def isNameStart (c : Char) : Bool :=
  if c.toNat < 0x80 then c.isAlpha || c == '_' || c == ':' else isAlphabetic c

/-- Whether a character may follow the first one of a name: also a digit, a hyphen, a full stop or a numeral. -/
def isNameChar (c : Char) : Bool :=
  if c.toNat < 0x80 then c.isAlphanum || c == '_' || c == ':' || c == '-' || c == '.'
  else isAlphabetic c || isNumeric c

end TagLint
