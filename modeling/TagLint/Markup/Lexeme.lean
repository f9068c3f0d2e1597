/-!
# Lexemes

A lexeme is one construct of markup exactly as it is written, spaces and quotes included. `Lexeme.text`
gives its characters back, so a list of lexemes stands for a text.
-/

namespace TagLint

/-- An attribute as written in a tag: space, a name, an equals sign with space around it, a quoted value. -/
structure WrittenAttribute where
  gap : List Char
  name : List Char
  beforeEquals : List Char
  afterEquals : List Char
  quote : Char
  value : List Char
deriving DecidableEq

namespace WrittenAttribute

/-- What follows the name of an attribute. -/
def assignment (a : WrittenAttribute) : List Char :=
  a.beforeEquals ++ '=' :: a.afterEquals ++ a.quote :: a.value ++ [a.quote]

/-- The characters of an attribute, from the space before it on. -/
def text (a : WrittenAttribute) : List Char := a.gap ++ a.name ++ a.assignment

end WrittenAttribute

/-- One construct of markup. -/
inductive Lexeme where
  /-- Character data up to the next angle bracket. -/
  | data (text : List Char)
  | comment (body : List Char)
  /-- A section of character data in which nothing is markup. -/
  | cdata (body : List Char)
  | instruction (body : List Char)
  | declaration (body : List Char)
  | closeTag (name gap : List Char)
  | tag (name : List Char) (attributes : List WrittenAttribute) (gap : List Char) (selfClosing : Bool)
deriving DecidableEq

namespace Lexeme

def commentStart : List Char := ['<', '!', '-', '-']

def cdataStart : List Char := ['<', '!', '[', 'C', 'D', 'A', 'T', 'A', '[']

def cdataEnd : List Char := [']', ']', '>']

/-- The characters of a lexeme. -/
def text : Lexeme → List Char
  | .data text => text
  | .comment body => commentStart ++ body ++ ['-', '-', '>']
  | .cdata body => cdataStart ++ body ++ cdataEnd
  | .instruction body => ['<', '?'] ++ body ++ ['?', '>']
  | .declaration body => ['<', '!'] ++ body ++ ['>']
  | .closeTag name gap => ['<', '/'] ++ name ++ gap ++ ['>']
  | .tag name attributes gap selfClosing =>
    ['<'] ++ name ++ attributes.flatMap WrittenAttribute.text ++ gap ++ if selfClosing then ['/', '>'] else ['>']

/-- Whether a lexeme is character data outside any section, the only one without an opening mark. -/
def isData : Lexeme → Bool
  | .data _ => true
  | _ => false

theorem text_eq_cons_of_markup {l : Lexeme} (h : l.isData = false) : ∃ t, l.text = '<' :: t := by
  cases l with
  | data => simp [isData] at h
  | _ => simp [text, commentStart, cdataStart]

end Lexeme

end TagLint
