import TagLint.Text.Position
import TagLint.Markup.Name
/-!
# Tokens

A token is a construct of markup with its meaning: names, values and where they stand, without the spaces
and quotes that separated them.
-/

namespace TagLint

/-- An attribute of an element: the value is as written, with its references. -/
structure Attribute where
  name : String
  value : String
  position : Position
deriving DecidableEq

inductive TokenKind where
  | openTag (name : String) (attributes : List Attribute)
  | selfClosingTag (name : String) (attributes : List Attribute)
  | closeTag (name : String)
  | comment (body : String)
  /-- A declaration or instruction, kept whole. -/
  | declaration (body : String)
  /-- Character data; `cdata` marks the content of a section. -/
  | text (content : String) (cdata : Bool)
deriving DecidableEq

/-- A token and the place of its first character. -/
structure Token where
  kind : TokenKind
  position : Position
deriving DecidableEq

/-- Whether a token is character data of spaces only, outside any section. -/
def Token.isBlank (t : Token) : Bool :=
  match t.kind with
  | .text content false => content.toList.all isSpace
  | _ => false

/-- A place where text is no markup, and why. -/
structure SyntaxError where
  position : Position
  message : String
deriving DecidableEq

/-- An error as it is reported on its own. -/
def SyntaxError.display (e : SyntaxError) : String := s!"{e.position.display}: {e.message}"

end TagLint
