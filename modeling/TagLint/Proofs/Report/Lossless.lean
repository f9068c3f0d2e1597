import TagLint.Proofs.Json.Reading
import TagLint.Proofs.List.Steps
import TagLint.Proofs.Text.Utf8
import TagLint.Report.Json
/-!
# Nothing is lost in JSON

A reader of standard JSON that asks for fields by their names gets each outcome back from its report, as long as all
paths are texts. So different outcomes have different reports, and an outcome with a path that is no text has none
(`json_lossless`).
-/

namespace TagLint

/-! ## Paths that are texts -/

/-- The bytes of the path are the encoding of a text. -/
def Path.IsText (p : Path) : Prop := ∃ s, p = .ofString s

theorem Path.text?_eq_some_iff {p : Path} {s : String} : p.text? = some s ↔ p = .ofString s := by
  have hdecode (text : List Char) : Utf8.decode p.bytes = .ok text ↔ p = .ofString (.ofList text) := by
    rw [Utf8.decode_eq_ok_iff, Path.ofString, String.toList_ofList, Path.mk.injEq]
  unfold text?
  constructor
  · intro h
    split at h
    next text ht =>
      obtain rfl := Option.some.inj h
      exact (hdecode text).1 ht
    next => cases h
  · intro h
    rw [← String.ofList_toList (s := s), ← hdecode] at h
    rw [h]
    exact congrArg some String.ofList_toList

/-- The paths of all files and errors are texts. -/
structure Outcome.HasTextPaths (o : Outcome) : Prop where
  files : ∀ v ∈ o.files, v.path.IsText
  errors : ∀ e ∈ o.errors, e.path.IsText

/-! ## Values of fields -/

namespace Json

/-- The value of a field. -/
def field? (name : String) : Json → Option Json
  | .object fields => (fields.find? fun field => field.1 == name).map Prod.snd
  | _ => none

def bool? : Json → Option Bool
  | .bool value => some value
  | _ => none

def number? : Json → Option Nat
  | .number value => some value
  | _ => none

def string? : Json → Option String
  | .string value => some value
  | _ => none

def items? : Json → Option (List Json)
  | .array items => some items
  | _ => none

end Json

namespace Report

/-! ## Reading a report -/

def position? (value : Json) : Option Position := do
  let line ← (← value.field? "line").number?
  let column ← (← value.field? "column").number?
  let offset ← (← value.field? "offset").number?
  return ⟨line, column, offset⟩

def kind? (name : String) : Option DiagnosticKind :=
  [.malformedSyntax, .structuralViolation, .ioFailure].find? fun kind => kind.name == name

/-- A value that may be null instead. -/
def nullable? {α : Type} (read : Json → Option α) : Json → Option (Option α)
  | .null => some none
  | value => (read value).map some

def diagnostic? (value : Json) : Option Diagnostic := do
  let kind ← kind? (← (← value.field? "kind").string?)
  let position ← nullable? position? (← value.field? "position")
  let message ← (← value.field? "message").string?
  let rule ←
    match value.field? "rule" with
    | none => some none
    | some rule => rule.string?.map some
  return ⟨kind, position, message, rule⟩

def path? (value : Json) : Option Path := value.string?.map .ofString

def file? (value : Json) : Option FileVerdict := do
  let path ← path? (← value.field? "path")
  let passed ← (← value.field? "passed").bool?
  let diagnostics ← (← (← value.field? "diagnostics").items?).mapM diagnostic?
  return ⟨path, passed, diagnostics⟩

def error? (value : Json) : Option RunError := do
  let path ← path? (← value.field? "path")
  match ← (← value.field? "kind").string? with
  | "unexpected-pass" => some (.unexpectedPass path)
  | "unexpected-failure" => some (.unexpectedFailure path)
  | _ => none

def outcome? (value : Json) : Option Outcome := do
  let files ← (← (← value.field? "files").items?).mapM file?
  let errors ← (← (← value.field? "errors").items?).mapM error?
  let passed ← (← value.field? "passed").bool?
  return ⟨files, errors, passed⟩

/-! ## What is written is read -/

theorem position?_positionJson (p : Position) : position? (positionJson p) = some p := by
  simp [position?, positionJson, Json.field?, Json.number?]

theorem kind?_name (kind : DiagnosticKind) : kind? kind.name = some kind := by
  cases kind <;> rfl

theorem diagnostic?_diagnosticJson (d : Diagnostic) : diagnostic? (diagnosticJson d) = some d := by
  obtain ⟨kind, position, message, rule⟩ := d
  have hnull : nullable? position? .null = some none := rfl
  have hposition (p : Position) : nullable? position? (positionJson p) = some (some p) :=
    congrArg (Option.map some) (position?_positionJson p)
  cases position <;> cases rule <;>
    simp [diagnostic?, diagnosticJson, Json.field?, Json.string?, kind?_name, hnull, hposition]

theorem pathJson_ofString (s : String) : pathJson (.ofString s) = .ok (.string s) := by
  rw [pathJson, Path.text?_eq_some_iff.2 rfl]

theorem isText_of_pathJson {p : Path} {value : Json} (h : pathJson p = .ok value) : p.IsText := by
  unfold pathJson at h
  split at h
  next s hs => exact ⟨s, Path.text?_eq_some_iff.1 hs⟩
  next => cases h

theorem file?_fileJson {v : FileVerdict} (h : v.path.IsText) :
    ∃ value, fileJson v = .ok value ∧ file? value = some v := by
  obtain ⟨path, passed, diagnostics⟩ := v
  obtain ⟨s, rfl⟩ := h
  have hdiagnostics : (diagnostics.map diagnosticJson).mapM diagnostic? = some diagnostics :=
    mapM_map diagnostic?_diagnosticJson
  refine ⟨_, by rw [fileJson, pathJson_ofString]; rfl, ?_⟩
  simp [file?, path?, Json.field?, Json.string?, Json.bool?, Json.items?, hdiagnostics]

theorem error?_errorJson {e : RunError} (h : e.path.IsText) :
    ∃ value, errorJson e = .ok value ∧ error? value = some e := by
  obtain ⟨s, hs⟩ := h
  refine ⟨_, by rw [errorJson, hs, pathJson_ofString]; rfl, ?_⟩
  cases e <;> obtain rfl : _ = Path.ofString s := hs <;>
    simp [error?, errorKind, path?, Json.field?, Json.string?]

theorem outcome?_outcomeJson {o : Outcome} (h : o.HasTextPaths) :
    ∃ value, outcomeJson o = .ok value ∧ outcome? value = some o := by
  obtain ⟨files, errors, passed⟩ := o
  obtain ⟨fileValues, hwriteFiles, hreadFiles⟩ := mapM_mapM fun v hv => file?_fileJson (h.files v hv)
  obtain ⟨errorValues, hwriteErrors, hreadErrors⟩ := mapM_mapM fun e he => error?_errorJson (h.errors e he)
  refine ⟨_, by rw [outcomeJson, hwriteFiles, hwriteErrors]; rfl, ?_⟩
  simp [outcome?, Json.field?, Json.bool?, Json.items?, hreadFiles, hreadErrors]

theorem hasTextPaths_of_outcomeJson {o : Outcome} {value : Json} (h : outcomeJson o = .ok value) :
    o.HasTextPaths := by
  obtain ⟨files, hfiles, h⟩ := ok_of_bind h
  obtain ⟨errors, herrors, -⟩ := ok_of_bind h
  constructor
  · intro v hv
    obtain ⟨_, hvalue⟩ := ok_of_mapM hfiles v hv
    obtain ⟨_, hpath, -⟩ := ok_of_bind hvalue
    exact isText_of_pathJson hpath
  · intro e he
    obtain ⟨_, hvalue⟩ := ok_of_mapM herrors e he
    obtain ⟨_, hpath, -⟩ := ok_of_bind hvalue
    exact isText_of_pathJson hpath

/-! ## Main theorem -/

/-- An outcome whose paths are texts has a report in JSON from which a reader gets all of it back, different outcomes
have different ones, and an outcome with a path that is no text has none. -/
theorem json_lossless :
    (∀ o : Outcome, o.HasTextPaths → ∃ text, json o = .ok text ∧ (Json.read text).bind outcome? = some o) ∧
    (∀ o o' : Outcome, o.HasTextPaths → o'.HasTextPaths → o ≠ o' → json o ≠ json o') ∧
    ∀ o : Outcome, ¬ o.HasTextPaths → json o = .error .pathNotText := by
  have hread : ∀ o : Outcome, o.HasTextPaths → ∃ text, json o = .ok text ∧ (Json.read text).bind outcome? = some o := by
    intro o h
    obtain ⟨value, hvalue, ho⟩ := outcome?_outcomeJson h
    refine ⟨value.pretty, by rw [json, hvalue]; rfl, ?_⟩
    rw [Json.read_pretty, Option.bind_some, ho]
  refine ⟨hread, fun o o' h h' hne heq => ?_, fun o h => ?_⟩
  · obtain ⟨text, htext, ho⟩ := hread o h
    obtain ⟨text', htext', ho'⟩ := hread o' h'
    obtain rfl : text = text' := Except.ok.inj (htext.symm.trans (heq.trans htext'))
    exact hne (Option.some.inj (ho.symm.trans ho'))
  · unfold json
    cases hvalue : outcomeJson o with
    | ok value => exact absurd (hasTextPaths_of_outcomeJson hvalue) h
    | error e =>
      cases e
      rfl

/-- A rule without a name is not the same as no rule, and a path of one byte that begins no character has no report. -/
theorem json_lossless_nameless_rule :
    let o (rule : Option String) : Outcome :=
      ⟨[⟨.ofString "a", false, [⟨.ioFailure, none, "\x01\n", rule⟩]⟩], [], false⟩
    (∃ text, json (o (some "")) = .ok text ∧ (Json.read text).bind outcome? = some (o (some ""))) ∧
      json (o none) ≠ json (o (some "")) ∧ json ⟨[⟨⟨[0x80]⟩, true, []⟩], [], true⟩ = .error .pathNotText := by
  intro o
  have htext (rule : Option String) : (o rule).HasTextPaths :=
    ⟨List.forall_mem_singleton.2 ⟨"a", rfl⟩, List.forall_mem_nil _⟩
  have hne : o none ≠ o (some "") := by decide
  have hbyte : ¬ Outcome.HasTextPaths ⟨[⟨⟨[0x80]⟩, true, []⟩], [], true⟩ := by
    intro h
    obtain ⟨s, hs⟩ := List.forall_mem_singleton.1 h.files
    have hnone : Path.text? ⟨[0x80]⟩ = none := rfl
    rw [Path.text?_eq_some_iff.2 hs] at hnone
    cases hnone
  exact ⟨json_lossless.1 _ (htext _), json_lossless.2.1 _ _ (htext _) (htext _) hne, json_lossless.2.2 _ hbyte⟩

end Report

end TagLint
