import TagLint.Log
import TagLint.Source
import TagLint.Validation
/-!
# Verdicts on files

A file passes if nothing is found in it. Its verdict lists the findings on well-formedness first, then
those of the rules in the order of their registration.
-/

namespace TagLint

structure FileVerdict where
  path : Path
  passed : Bool
  diagnostics : List Diagnostic
deriving DecidableEq

namespace FileVerdict

/-- The verdict that findings amount to. -/
def ofDiagnostics (path : Path) (diagnostics : List Diagnostic) : FileVerdict :=
  ⟨path, diagnostics.isEmpty, diagnostics⟩

/-- The verdict of a validation. -/
def ofValidation (path : Path) (v : Validation) : FileVerdict :=
  ofDiagnostics path (v.wellFormedness ++ v.ruleResults.flatMap RuleResult.diagnostics)

/-- What is logged about a file. -/
def events (v : FileVerdict) : List LogEvent :=
  .linting v.path :: if v.passed then [] else [.fileFailed v.path v.diagnostics.length]

end FileVerdict

/-- Loads and validates a file. -/
def lintFile (fs : FileSystem) (rules : Registry) (path : Path) : FileVerdict :=
  match loadSource fs path with
  | .ok source => .ofValidation path (validate source rules)
  | .error diagnostic => .ofDiagnostics path [diagnostic]

/-- One verdict for each path, in their order. -/
def lintFiles (fs : FileSystem) (rules : Registry) (paths : List Path) : List FileVerdict :=
  paths.map (lintFile fs rules)

end TagLint
