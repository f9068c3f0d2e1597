import TagLint.Json
import TagLint.Run.Outcome
/-!
# The report as JSON

An outcome becomes a JSON value that holds all of it. Paths are written as text, so an outcome with a path
that is no text has no such report.
-/

namespace TagLint.Report

/-- Why there is no report. -/
inductive ReportError where
  | pathNotText
deriving DecidableEq

def ReportError.message : ReportError → String
  | .pathNotText => "path contains invalid UTF-8 characters"

def positionJson (p : Position) : Json :=
  .object [("line", .number p.line), ("column", .number p.column), ("offset", .number p.offset)]

/-- A finding. A missing position is null, and a missing rule is no field. -/
def diagnosticJson (d : Diagnostic) : Json :=
  .object ([
    ("kind", .string d.kind.name),
    ("severity", .string "error"),
    ("position", match d.position with | some p => positionJson p | none => .null),
    ("message", .string d.message)]
    ++ match d.rule with
      | some rule => [("rule", .string rule)]
      | none => [])

def pathJson (p : Path) : Except ReportError Json :=
  match p.text? with
  | some text => .ok (.string text)
  | none => .error .pathNotText

def fileJson (v : FileVerdict) : Except ReportError Json := do
  let path ← pathJson v.path
  return .object [
    ("path", path), ("passed", .bool v.passed), ("diagnostics", .array (v.diagnostics.map diagnosticJson))]

/-- The name of a kind of error in a report. -/
def errorKind : RunError → String
  | .unexpectedPass _ => "unexpected-pass"
  | .unexpectedFailure _ => "unexpected-failure"

def errorJson (e : RunError) : Except ReportError Json := do
  let path ← pathJson e.path
  return .object [("kind", .string (errorKind e)), ("path", path)]

/-- An outcome as a value. -/
def outcomeJson (o : Outcome) : Except ReportError Json := do
  let files ← o.files.mapM fileJson
  let errors ← o.errors.mapM errorJson
  return .object [("files", .array files), ("errors", .array errors), ("passed", .bool o.passed)]

/-- The report as indented JSON. -/
def json (o : Outcome) : Except ReportError String := Json.pretty <$> outcomeJson o

end TagLint.Report
