import Mathlib.Data.List.Basic
import TagLint.Proofs.Path.Order
/-!
# What a run decides

`FileSystem.Clean` says of a file what its verdict says: that it has a text and the text has no finding.
`Mismatches` is the list of errors of a test run as a relation, and `evaluate_lintFiles` puts the two together
for both modes.
-/

namespace TagLint

/-- The file at a path has a text, and neither phase finds anything in it. -/
def FileSystem.Clean (fs : FileSystem) (rules : Registry) (p : Path) : Prop :=
  ∃ source, loadSource fs p = .ok source ∧ (validate source rules).wellFormedness = [] ∧
    ∀ r ∈ (validate source rules).ruleResults, r.diagnostics = []

/-- The errors of files when those of which `Expected` holds are to fail: one for each file that is clean
and expected to fail, or is not clean and expected to pass, in the order of the files. -/
inductive Mismatches (Clean Expected : Path → Prop) : List Path → List RunError → Prop
  | nil : Mismatches Clean Expected [] []
  | unexpectedPass {p files errors} (hclean : Clean p) (hexpected : Expected p)
      (rest : Mismatches Clean Expected files errors) :
      Mismatches Clean Expected (p :: files) (.unexpectedPass p :: errors)
  | unexpectedFailure {p files errors} (hclean : ¬ Clean p) (hexpected : ¬ Expected p)
      (rest : Mismatches Clean Expected files errors) :
      Mismatches Clean Expected (p :: files) (.unexpectedFailure p :: errors)
  | asExpected {p files errors} (h : ¬ Clean p ↔ Expected p)
      (rest : Mismatches Clean Expected files errors) : Mismatches Clean Expected (p :: files) errors

theorem Mismatches.errors_eq_nil_iff {Clean Expected : Path → Prop} {files errors}
    (h : Mismatches Clean Expected files errors) : errors = [] ↔ ∀ p ∈ files, ¬ Clean p ↔ Expected p := by
  induction h with
  | nil => simp
  | unexpectedPass hclean hexpected _ _ => simp [hclean, hexpected]
  | unexpectedFailure hclean hexpected _ _ => simp [hclean, hexpected]
  | asExpected h _ ih => simp [h, ih]

/-! ## Verdicts -/

theorem FileVerdict.ofValidation_passed_iff (p : Path) (v : Validation) :
    (ofValidation p v).passed ↔ v.wellFormedness = [] ∧ ∀ r ∈ v.ruleResults, r.diagnostics = [] := by
  simp [ofValidation, ofDiagnostics]

section

variable (fs : FileSystem) (rules : Registry)

theorem lintFile_path (p : Path) : (lintFile fs rules p).path = p := by
  rw [lintFile]
  cases loadSource fs p <;> rfl

theorem lintFile_passed_iff (p : Path) : (lintFile fs rules p).passed ↔ fs.Clean rules p := by
  rw [lintFile, FileSystem.Clean]
  cases loadSource fs p with
  | ok source => simp [FileVerdict.ofValidation_passed_iff]
  | error diagnostic => simp [FileVerdict.ofDiagnostics]

theorem lintFiles_paths (files : List Path) : (lintFiles fs rules files).map FileVerdict.path = files := by
  simp only [lintFiles, List.map_map, Function.comp_def, lintFile_path, List.map_id']

theorem lintFiles_normalized (files : List Path) :
    (lintFiles fs rules files).map (·.path.normalize) = files.map Path.normalize := by
  simp only [lintFiles, List.map_map, Function.comp_def, lintFile_path]

/-! ## Errors -/

theorem RunError.path_of_ofVerdict? {expected : List Path} {v : FileVerdict} {e : RunError}
    (h : ofVerdict? expected v = some e) : e.path = v.path := by
  unfold ofVerdict? at h
  split at h <;> split at h <;> cases h <;> rfl

theorem filterMap_ofVerdict? (X : List Path) (files : List Path) :
    Mismatches (fs.Clean rules) (fun p => p.normalize ∈ X) files
      ((lintFiles fs rules files).filterMap (RunError.ofVerdict? X)) := by
  induction files with
  | nil => exact .nil
  | cons p files ih =>
    rw [lintFiles, List.map_cons, ← lintFiles, List.filterMap_cons, RunError.ofVerdict?, lintFile_path]
    have hpassed := lintFile_passed_iff fs rules p
    by_cases hexpected : p.normalize ∈ X <;> cases hp : (lintFile fs rules p).passed <;>
      rw [hp] at hpassed <;> simp only [hexpected, if_true, if_false, Bool.false_eq_true]
    · exact .asExpected (by simp [← hpassed, hexpected]) ih
    · exact .unexpectedPass (by simp [← hpassed]) hexpected ih
    · exact .unexpectedFailure (by simp [← hpassed]) hexpected ih
    · exact .asExpected (by simp [← hpassed, hexpected]) ih

/-- Only whether the normalized paths of the verdicts are expected matters for the errors. -/
theorem filterMap_ofVerdict?_congr {X Y : List Path} {verdicts : List FileVerdict}
    (h : ∀ v ∈ verdicts, v.path.normalize ∈ X ↔ v.path.normalize ∈ Y) :
    verdicts.filterMap (RunError.ofVerdict? X) = verdicts.filterMap (RunError.ofVerdict? Y) :=
  List.filterMap_congr fun v hv => by simp only [RunError.ofVerdict?, h v hv]

end

/-! ## The two modes -/

/-- The verdict of a run in which every file must pass. -/
structure Outcome.Normal (Clean : Path → Prop) (files : List Path) (o : Outcome) : Prop where
  errors : o.errors = []
  passed : o.passed ↔ ∀ p ∈ files, Clean p
  failedFiles : o.passed ↔ o.failedFiles = 0

/-- The verdict of a run in which the files of which `Expected` holds must fail and all others pass. -/
structure Outcome.Test (Clean Expected : Path → Prop) (files : List Path) (o : Outcome) : Prop where
  errors : Mismatches Clean Expected files o.errors
  passed : o.passed ↔ ∀ p ∈ files, ¬ Clean p ↔ Expected p

/-- Each of the paths `X` that is none of the files is warned about once, in increasing order. -/
def WarnsUnmatched (X files : List Path) (events : List LogEvent) : Prop :=
  ∃ unseen : List Path, events = unseen.map .expectationUnmatched ∧
    (unseen.Pairwise fun p q => p.compareTo q = .lt) ∧
    ∀ q, q ∈ unseen ↔ q ∈ X.map Path.normalize ∧ q ∉ files.map Path.normalize

theorem Outcome.exitCode_eq_zero_iff (o : Outcome) : o.exitCode = 0 ↔ o.passed := by
  rw [exitCode]
  cases o.passed <;> decide

theorem evaluate_normal (fs : FileSystem) (rules : Registry) (files : List Path) :
    (RunMode.normal.evaluate (lintFiles fs rules files)).Normal (fs.Clean rules) files where
  errors := rfl
  passed := by simp [RunMode.evaluate, lintFiles, lintFile_passed_iff]
  failedFiles := by simp [RunMode.evaluate, Outcome.failedFiles]

theorem evaluate_expecting (fs : FileSystem) (rules : Registry) (files X : List Path) :
    ((RunMode.expecting X).evaluate (lintFiles fs rules files)).Test (fs.Clean rules)
      (fun p => p.normalize ∈ X.map Path.normalize) files := by
  have hset := (RunMode.pathSet_spec X).2
  have herrors := filterMap_ofVerdict? fs rules (RunMode.pathSet X) files
  simp only [hset] at herrors
  refine ⟨herrors, ?_⟩
  rw [RunMode.expecting, RunMode.evaluate, List.isEmpty_iff]
  exact herrors.errors_eq_nil_iff

theorem events_expecting (fs : FileSystem) (rules : Registry) (files X : List Path) :
    WarnsUnmatched X files ((RunMode.expecting X).events (lintFiles fs rules files)) := by
  obtain ⟨hlt, hmem⟩ := RunMode.pathSet_spec X
  refine ⟨_, rfl, ?_, fun q => ?_⟩
  · exact hlt.filter _
  · simp only [RunMode.expecting, RunMode.unmatched, lintFiles_normalized, List.mem_filter, hmem, decide_eq_true_eq]

/-- Expectations that name none of the files do not enter the decision. -/
theorem evaluate_expecting_matched (X : List Path) (verdicts : List FileVerdict) :
    (RunMode.expecting X).evaluate verdicts =
      (RunMode.expecting (X.filter (·.normalize ∈ verdicts.map (·.path.normalize)))).evaluate verdicts := by
  simp only [RunMode.expecting, RunMode.evaluate]
  rw [filterMap_ofVerdict?_congr fun v hv => ?_]
  have hv : v.path.normalize ∈ verdicts.map (·.path.normalize) := List.mem_map_of_mem hv
  simp only [(RunMode.pathSet_spec _).2, List.mem_map (f := Path.normalize), List.mem_filter, decide_eq_true_eq]
  constructor
  · rintro ⟨q, hq, he⟩
    exact ⟨q, ⟨hq, he ▸ hv⟩, he⟩
  · rintro ⟨q, ⟨hq, -⟩, he⟩
    exact ⟨q, hq, he⟩

/-- A run gives each file its verdict, in order. Without expectations it passes if all files are clean. With
the files `X` expected to fail, it passes if those and no others fail; what `X` has besides the files is warned
about and left out of the decision. -/
theorem evaluate_lintFiles (fs : FileSystem) (rules : Registry) (files : List Path) :
    let verdicts := lintFiles fs rules files
    verdicts.map FileVerdict.path = files ∧
    (∀ mode : RunMode, (mode.evaluate verdicts).files = verdicts ∧
      ((mode.evaluate verdicts).exitCode = 0 ↔ (mode.evaluate verdicts).passed)) ∧
    (RunMode.normal.evaluate verdicts).Normal (fs.Clean rules) files ∧
    RunMode.normal.events verdicts = [] ∧
    ∀ X : List Path,
      ((RunMode.expecting X).evaluate verdicts).Test (fs.Clean rules)
        (fun p => p.normalize ∈ X.map Path.normalize) files ∧
      WarnsUnmatched X files ((RunMode.expecting X).events verdicts) ∧
      (RunMode.expecting X).evaluate verdicts =
        (RunMode.expecting (X.filter (·.normalize ∈ files.map Path.normalize))).evaluate verdicts := by
  refine ⟨lintFiles_paths fs rules files, fun mode => ⟨by cases mode <;> rfl, Outcome.exitCode_eq_zero_iff _⟩,
    evaluate_normal fs rules files, rfl, fun X => ⟨evaluate_expecting fs rules files X,
    events_expecting fs rules files X, ?_⟩⟩
  rw [evaluate_expecting_matched, lintFiles_normalized]

end TagLint
