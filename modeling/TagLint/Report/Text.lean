import TagLint.Run.Outcome
/-!
# The report as text

A report is a list of lines: the files, the findings in each, in test mode the errors of the run, and the
verdict on the run.
-/

namespace TagLint.Report

/-- The lines about one file. -/
def fileLines (v : FileVerdict) : List String :=
  s!"Linting: {v.path.display}" ::
    (if v.passed then ["  ✓ PASSED"]
    else s!"  ❌ FAILED with {v.diagnostics.length} error(s):"
      :: v.diagnostics.map (fun d => s!"    - {d.display}"))
    ++ [""]

/-- The lines about the errors of a run, which only test mode has. -/
def modeLines (mode : RunMode) (errors : List RunError) : List String :=
  match mode with
  | .normal => []
  | .test expected =>
    s!"Test mode: {expected.length} file(s) expected to fail."
      :: errors.map (fun e => s!"  ❌ {e.message}")
      ++ if errors.isEmpty then [] else [""]

/-- The line about the run as a whole. -/
def verdictLine (mode : RunMode) (o : Outcome) : String :=
  if o.passed then
    match mode with
    | .normal => "✓ All files passed linting!"
    | .test _ => "✓ All files matched their expected results!"
  else
    s!"❌ Linting failed! {o.failedFiles} of {o.files.length} file(s) failed. Please fix the errors above."

/-- The lines of the report on a run over the files of a workspace. -/
def lines (o : Outcome) (mode : RunMode) (root : Path) : List String :=
  s!"Scanning for markup files in: {root.display}" ::
    if o.files.isEmpty then ["No markup files found."]
    else
      s!"Found {o.files.length} file(s) to lint:"
        :: o.files.map (fun v => s!"  - {v.path.display}")
        ++ "" :: o.files.flatMap fileLines
        ++ modeLines mode o.errors
        ++ [verdictLine mode o]

/-- The report as text, each line ended by a line feed. -/
def text (o : Outcome) (mode : RunMode) (root : Path) : String :=
  String.join ((lines o mode root).map (· ++ "\n"))

end TagLint.Report
