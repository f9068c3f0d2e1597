import TagLint.Text.Position
/-!
# Diagnostics

A diagnostic is one finding about one file: what kind it is, where it stands, what it says and, for the
finding of a rule, which rule made it. Every finding fails its file.
-/

namespace TagLint

/-- What a finding is about. -/
inductive DiagnosticKind where
  /-- The syntax of a tag, the nesting of elements or the number of roots. -/
  | malformedSyntax
  /-- The finding of a rule on a well-formed document. -/
  | structuralViolation
  /-- A file that cannot be read or decoded. -/
  | ioFailure
deriving DecidableEq

/-- The name of a kind in reports. -/
def DiagnosticKind.name : DiagnosticKind → String
  | .malformedSyntax => "malformed-syntax"
  | .structuralViolation => "structural-violation"
  | .ioFailure => "io-failure"

structure Diagnostic where
  kind : DiagnosticKind
  /-- Absent when the finding is about a file as a whole. -/
  position : Option Position
  message : String
  /-- The rule that made the finding, if a rule did. -/
  rule : Option String
deriving DecidableEq

namespace Diagnostic

def malformed (position : Position) (message : String) : Diagnostic :=
  ⟨.malformedSyntax, some position, message, none⟩

def structural (position : Position) (message : String) : Diagnostic :=
  ⟨.structuralViolation, some position, message, none⟩

def io (message : String) : Diagnostic := ⟨.ioFailure, none, message, none⟩

/-- The same finding, made by the given rule. -/
def withRule (d : Diagnostic) (rule : String) : Diagnostic := { d with rule := some rule }

/-- A finding in one line: `line:column: [kind] message (rule)`, without the parts it does not have. -/
def display (d : Diagnostic) : String :=
  let place := match d.position with
    | some p => s!"{p.display}: "
    | none => ""
  let origin := match d.rule with
    | some rule => s!" ({rule})"
    | none => ""
  s!"{place}[{d.kind.name}] {d.message}{origin}"

end Diagnostic

end TagLint
