import TagLint.Markup.Nesting
import TagLint.Markup.Tokenize
import TagLint.Rule.Registry
/-!
# Validation of one text

A text is first checked for well-formedness. Only a well-formed text has a tree, and only then do the
rules run.
-/

namespace TagLint

/-- The findings of both phases on one text. -/
structure Validation where
  wellFormedness : List Diagnostic
  /-- One result for each rule; none if the text is not well-formed. -/
  ruleResults : List RuleResult
deriving DecidableEq

/-- Whether nothing was found. -/
def Validation.isValid (v : Validation) : Bool :=
  v.wellFormedness.isEmpty && v.ruleResults.all (·.diagnostics.isEmpty)

/-- Checks a text and applies the rules to it. -/
def validate (source : String) (rules : Registry) : Validation :=
  match checkWellFormed (tokenize source) with
  | .ok root => ⟨[], rules.run root⟩
  | .error diagnostics => ⟨diagnostics, []⟩

end TagLint
