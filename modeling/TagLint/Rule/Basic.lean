import TagLint.Diagnostic
import TagLint.Markup.Element
/-!
# Rules

A rule is a named function from well-formed documents to findings. Whatever the function says, each finding
carries the name of its rule.
-/

namespace TagLint

structure Rule where
  name : String
  findings : Element → List Diagnostic

/-- The findings of one rule on one document. -/
structure RuleResult where
  rule : String
  diagnostics : List Diagnostic
deriving DecidableEq

/-- Applies a rule and puts its name on what it finds. -/
def Rule.check (r : Rule) (root : Element) : RuleResult :=
  ⟨r.name, (r.findings root).map (·.withRule r.name)⟩

end TagLint
