import TagLint.Diagnostic
import TagLint.Markup.Token
/-!
# What can be wrong with the nesting of tags

Each way in which a stream of tokens fails to be one tree is one constructor, with what its report names.
-/

namespace TagLint

inductive NestingFault where
  /-- The text itself cannot be read on. -/
  | syntaxError (error : SyntaxError)
  | textOutsideRoot (position : Position)
  | secondRoot (name root : String) (position : Position)
  | closeWithoutOpen (name : String) (position : Position)
  /-- A close tag that is not that of the innermost open element, which was opened at `opened`. -/
  | mismatchedClose (expected found : String) (opened position : Position)
  | unclosed (name : String) (position : Position)
  | noRoot
deriving DecidableEq

namespace NestingFault

/-- Where a fault is reported. That there is no root is reported at the start of the text. -/
def position : NestingFault → Position
  | .syntaxError error => error.position
  | .textOutsideRoot position | .secondRoot _ _ position | .closeWithoutOpen _ position
  | .mismatchedClose _ _ _ position | .unclosed _ position => position
  | .noRoot => .start

def message : NestingFault → String
  | .syntaxError error => error.message
  | .textOutsideRoot _ => "text is not allowed outside the root element"
  | .secondRoot name root _ => s!"multiple root elements: <{name}> appears after root element <{root}>"
  | .closeWithoutOpen name _ => s!"unexpected close tag </{name}> with no open element"
  | .mismatchedClose expected found opened _ =>
    s!"mismatched close tag: expected </{expected}>, found </{found}> (<{expected}> opened at {opened.display})"
  | .unclosed name _ => s!"unclosed tag <{name}>"
  | .noRoot => "document has no root element"

def diagnostic (f : NestingFault) : Diagnostic := .malformed f.position f.message

end NestingFault

end TagLint
