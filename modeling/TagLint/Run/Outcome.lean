import TagLint.Run.Verdict
/-!
# The outcome of a run

In normal mode a run passes if every file does. In test mode some files are expected to fail: each file
whose verdict is not the expected one is an error, and the run passes if there is none. Files are known by
their normalized paths, so the spelling of a path does not matter.
-/

namespace TagLint

/-- How verdicts on files make up the verdict on a run. -/
inductive RunMode where
  /-- Every file must pass. -/
  | normal
  /-- The listed files must fail and all others pass. The paths are normalized, increasing and distinct. -/
  | test (expected : List Path)
deriving DecidableEq

namespace RunMode

/-- Normalized paths in increasing order, each once. -/
def pathSet (paths : List Path) : List Path :=
  ((paths.map Path.normalize).mergeSort (fun p q => (p.compareTo q).isLE)).eraseReps

/-- Test mode with the given files expected to fail. -/
def expecting (paths : List Path) : RunMode := .test (pathSet paths)

end RunMode

/-- A file whose verdict is not the expected one. -/
inductive RunError where
  | unexpectedPass (path : Path)
  | unexpectedFailure (path : Path)
deriving DecidableEq

namespace RunError

def path : RunError → Path
  | .unexpectedPass path | .unexpectedFailure path => path

def message : RunError → String
  | .unexpectedPass path => s!"{path.display}: expected to fail, but passed"
  | .unexpectedFailure path => s!"{path.display}: unexpected failure"

/-- What is wrong with a verdict when the files `expected` are to fail and all others to pass. -/
def ofVerdict? (expected : List Path) (v : FileVerdict) : Option RunError :=
  if v.path.normalize ∈ expected then
    if v.passed then some (.unexpectedPass v.path) else none
  else if v.passed then none else some (.unexpectedFailure v.path)

end RunError

/-- The verdicts of a run, its errors in the order of the files, and whether it passed. -/
structure Outcome where
  files : List FileVerdict
  errors : List RunError
  passed : Bool
deriving DecidableEq

namespace Outcome

/-- How many files failed. -/
def failedFiles (o : Outcome) : Nat := o.files.countP (fun v => !v.passed)

/-- The exit status of a run. -/
def exitCode (o : Outcome) : Nat := if o.passed then 0 else 1

end Outcome

namespace RunMode

/-- Decides a run. -/
def evaluate (mode : RunMode) (files : List FileVerdict) : Outcome :=
  match mode with
  | .normal => ⟨files, [], files.all FileVerdict.passed⟩
  | .test expected =>
    let errors := files.filterMap (RunError.ofVerdict? expected)
    ⟨files, errors, errors.isEmpty⟩

/-- The expected failures that are none of the files, in increasing order. -/
def unmatched (mode : RunMode) (files : List FileVerdict) : List Path :=
  match mode with
  | .normal => []
  | .test expected =>
    let seen := files.map (·.path.normalize)
    expected.filter (· ∉ seen)

/-- What is logged about a run. -/
def events (mode : RunMode) (files : List FileVerdict) : List LogEvent :=
  (mode.unmatched files).map .expectationUnmatched

end RunMode

end TagLint
