/-!
# What can be wrong with the syntax of markup

Each way in which a text fails to be a sequence of tags, comments, sections and character data is one
constructor; `SyntaxCause.message` gives its wording.
-/

namespace TagLint

/-- What a tag begins with. -/
inductive Opener where
  | start
  | close
deriving DecidableEq

/-- The characters of an opener. -/
def Opener.text : Opener → String
  | .start => "<"
  | .close => "</"

/-- Why the text after an ampersand is no reference. -/
inductive ReferenceCause where
  | unterminated
  | notACharacter (body : String)
  | undefinedEntity (body : String)
deriving DecidableEq

/-- Why a text cannot be read on. -/
inductive SyntaxCause where
  | hyphensInComment
  | unterminatedComment
  | unterminatedSection
  | unterminatedInstruction
  | malformedDeclaration
  | unterminatedDeclaration
  | spaceBeforeName (opener : Opener)
  | invalidNameStart (opener : Opener) (found : Char)
  | missingName (opener : Opener)
  | unexpectedInCloseTag (tag : String) (found : Char)
  | unterminatedCloseTag (tag : String)
  | unexpectedInTag (tag : String) (found : Char)
  | unterminatedTag (tag : String)
  | slashInTag (tag : String)
  | missingSpace (tag : String)
  | duplicateAttribute (tag name : String)
  | missingValue (tag name : String)
  | unquotedValue (tag name : String)
  | angleInValue (name : String)
  | unterminatedValue (tag name : String)
  | badReference (cause : ReferenceCause)
deriving DecidableEq

def ReferenceCause.message : ReferenceCause → String
  | .unterminated => "'&' must start a reference terminated by ';' (use &amp; for a literal '&')"
  | .notACharacter body => s!"invalid character reference '&{body};'"
  | .undefinedEntity body => s!"undefined entity '&{body};'"

def SyntaxCause.message : SyntaxCause → String
  | .hyphensInComment => "'--' is not allowed inside a comment"
  | .unterminatedComment => "unterminated comment"
  | .unterminatedSection => "unterminated CDATA section"
  | .unterminatedInstruction => "unterminated processing instruction"
  | .malformedDeclaration => "malformed markup declaration after '<!'"
  | .unterminatedDeclaration => "unterminated markup declaration"
  | .spaceBeforeName opener => s!"whitespace is not allowed between '{opener.text}' and the element name"
  | .invalidNameStart opener found =>
    s!"invalid element name start character '{found}' after '{opener.text}'"
  | .missingName opener => s!"unexpected end of input after '{opener.text}'"
  | .unexpectedInCloseTag tag found => s!"unexpected character '{found}' in close tag </{tag}>"
  | .unterminatedCloseTag tag => s!"unterminated close tag </{tag}>"
  | .unexpectedInTag tag found => s!"unexpected character '{found}' in tag <{tag}>"
  | .unterminatedTag tag => s!"unterminated tag <{tag}>"
  | .slashInTag tag => s!"expected '>' after '/' in tag <{tag}>"
  | .missingSpace tag => s!"missing whitespace before attribute in tag <{tag}>"
  | .duplicateAttribute tag name => s!"duplicate attribute '{name}' on <{tag}>"
  | .missingValue tag name => s!"attribute '{name}' on <{tag}> has no value"
  | .unquotedValue tag name => s!"unquoted value for attribute '{name}' on <{tag}>"
  | .angleInValue name => s!"'<' is not allowed in the value of attribute '{name}'"
  | .unterminatedValue tag name => s!"unterminated value for attribute '{name}' on <{tag}>"
  | .badReference cause => cause.message

end TagLint
