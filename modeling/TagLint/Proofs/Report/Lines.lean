import TagLint.Proofs.Rules.Messages
import TagLint.Proofs.Run.Decision
import TagLint.Report.Text
/-!
# The lines of a report

In a report on texts every finding is one line, and how many other lines there are depends on the mode and on counts:
what the texts hold cannot add a line (`text_lines`).
-/

namespace TagLint

/-! ## Findings and verdicts on one line -/

theorem DiagnosticKind.unbroken_name (kind : DiagnosticKind) : Unbroken kind.name := by
  cases kind <;> exact unbroken_literal rfl

theorem Diagnostic.Unbroken.display {d : Diagnostic} (h : d.Unbroken) : TagLint.Unbroken d.display := by
  obtain ⟨kind, position, message, rule⟩ := d
  have hmessage : TagLint.Unbroken message := h.message
  have hrule : ∀ name ∈ rule, TagLint.Unbroken name := h.rule
  unfold Diagnostic.display
  cases position <;> cases rule <;>
    simp only [unbroken_append, unbroken_toString, Position.unbroken_display, hmessage, hrule, kind.unbroken_name,
      Option.mem_def, and_true, true_and]
  all_goals and_intros
  all_goals exact unbroken_literal rfl

/-- The verdict that some root-only rules amount to on some text, for a file whose path is displayed on one line. -/
structure FileVerdict.OnText (v : FileVerdict) : Prop where
  path : Unbroken v.path.display
  validation : ∃ elements rules source, (Registry.rootOnly elements).2 = .ok rules ∧
    v = .ofValidation v.path (validate source rules)

theorem FileVerdict.OnText.unbroken_diagnostics {v : FileVerdict} (h : v.OnText) :
    ∀ d ∈ v.diagnostics, d.Unbroken := by
  obtain ⟨-, elements, rules, source, hrules, hv⟩ := h
  rw [hv]
  exact fun d hd => Diagnostic.unbroken_of_validate hrules hd

theorem FileVerdict.OnText.passed_eq {v : FileVerdict} (h : v.OnText) : v.passed = v.diagnostics.isEmpty := by
  obtain ⟨-, elements, rules, source, hrules, hv⟩ := h
  rw [hv]
  rfl

theorem RunError.unbroken_message {e : RunError} (h : Unbroken e.path.display) : Unbroken e.message := by
  cases e <;>
  · unfold message
    simp only [unbroken_append, unbroken_toString]
    exact ⟨h, unbroken_literal rfl⟩

theorem RunMode.evaluate_files (mode : RunMode) (verdicts : List FileVerdict) :
    (mode.evaluate verdicts).files = verdicts := by
  cases mode <;> rfl

theorem RunMode.exists_of_mem_errors {mode : RunMode} {verdicts : List FileVerdict} {e : RunError}
    (h : e ∈ (mode.evaluate verdicts).errors) : ∃ v ∈ verdicts, e.path = v.path := by
  cases mode with
  | normal => cases h
  | test expected =>
    obtain ⟨v, hv, he⟩ := List.mem_filterMap.1 h
    exact ⟨v, hv, RunError.path_of_ofVerdict? he⟩

namespace Report

/-! ## No line of a report breaks -/

theorem unbroken_of_mem_fileLines {v : FileVerdict} (h : v.OnText) : ∀ line ∈ fileLines v, Unbroken line := by
  have hempty : Unbroken "" := unbroken_literal rfl
  unfold fileLines
  rw [List.forall_mem_append, List.forall_mem_cons, List.forall_mem_singleton]
  refine ⟨⟨?_, ?_⟩, hempty⟩
  · rw [unbroken_append]
    exact ⟨unbroken_literal rfl, h.path⟩
  · split
    · exact List.forall_mem_singleton.2 (unbroken_literal rfl)
    · rw [List.forall_mem_cons, List.forall_mem_map]
      refine ⟨?_, fun d hd => ?_⟩
      · simp only [unbroken_append]
        exact ⟨⟨unbroken_literal rfl, unbroken_number _⟩, unbroken_literal rfl⟩
      · rw [unbroken_append]
        exact ⟨unbroken_literal rfl, (h.unbroken_diagnostics d hd).display⟩

theorem unbroken_of_mem_modeLines {mode : RunMode} {errors : List RunError}
    (h : ∀ e ∈ errors, Unbroken e.path.display) : ∀ line ∈ modeLines mode errors, Unbroken line := by
  cases mode with
  | normal => exact List.forall_mem_nil _
  | test expected =>
    have hempty : Unbroken "" := unbroken_literal rfl
    unfold modeLines
    rw [List.forall_mem_append, List.forall_mem_cons, List.forall_mem_map]
    refine ⟨⟨?_, fun e he => ?_⟩, ?_⟩
    · simp only [unbroken_append]
      exact ⟨⟨unbroken_literal rfl, unbroken_number _⟩, unbroken_literal rfl⟩
    · rw [unbroken_append]
      exact ⟨unbroken_literal rfl, RunError.unbroken_message (h e he)⟩
    · split
      · exact List.forall_mem_nil _
      · exact List.forall_mem_singleton.2 hempty

theorem unbroken_verdictLine (mode : RunMode) (o : Outcome) : Unbroken (verdictLine mode o) := by
  unfold verdictLine
  split
  · cases mode <;> exact unbroken_literal rfl
  · simp only [unbroken_append, unbroken_number, unbroken_toString, and_true]
    and_intros <;> exact unbroken_literal rfl

theorem unbroken_of_mem_lines {mode : RunMode} {root : Path} {o : Outcome} (hroot : Unbroken root.display)
    (hfiles : ∀ v ∈ o.files, v.OnText) (herrors : ∀ e ∈ o.errors, Unbroken e.path.display) :
    ∀ line ∈ lines o mode root, Unbroken line := by
  have hempty : Unbroken "" := unbroken_literal rfl
  have hnone : Unbroken "No markup files found." := unbroken_literal rfl
  have hlisted : ∀ v ∈ o.files, Unbroken s!"  - {v.path.display}" := fun v hv => by
    rw [unbroken_append]
    exact ⟨unbroken_literal rfl, (hfiles v hv).path⟩
  unfold lines
  rw [List.forall_mem_cons, unbroken_append]
  refine ⟨⟨unbroken_literal rfl, hroot⟩, ?_⟩
  split
  · exact List.forall_mem_singleton.2 hnone
  · rw [List.forall_mem_append, List.forall_mem_append, List.forall_mem_append, List.forall_mem_cons,
      List.forall_mem_cons, List.forall_mem_map, List.forall_mem_flatMap, List.forall_mem_singleton]
    refine ⟨⟨⟨⟨?_, hlisted⟩, hempty, fun v hv => unbroken_of_mem_fileLines (hfiles v hv)⟩,
      unbroken_of_mem_modeLines herrors⟩, unbroken_verdictLine mode o⟩
    simp only [unbroken_append]
    exact ⟨⟨unbroken_literal rfl, unbroken_number _⟩, unbroken_literal rfl⟩

/-! ## The lines of findings -/

/-- How a line that shows a finding begins. -/
def findingMark : List Char := [' ', ' ', ' ', ' ', '-', ' ']

/-- Whether a line begins as one that shows a finding. -/
def showsFinding (line : String) : Bool := findingMark.isPrefixOf line.toList

/-- The line that shows a finding. -/
def findingLine (d : Diagnostic) : String := s!"    - {d.display}"

theorem showsFinding_findingLine (d : Diagnostic) : showsFinding (findingLine d) := by
  rw [showsFinding, findingLine, List.isPrefixOf_iff_prefix, String.toList_append]
  exact List.prefix_append _ _

theorem showsFinding_literal {text : List Char} (h : findingMark.isPrefixOf text = false) :
    showsFinding (.ofList text) = false := by
  rw [showsFinding, String.toList_ofList, h]

/-- A line that begins in another way shows no finding, whatever stands behind. -/
theorem showsFinding_append {text : List Char} {s : String} (h : findingMark.isPrefixOf text = false)
    (h' : text.isPrefixOf findingMark = false) : showsFinding (.ofList text ++ s) = false := by
  rw [showsFinding, String.toList_append, String.toList_ofList, Bool.eq_false_iff]
  intro hmark
  rcases List.prefix_or_prefix_of_prefix (List.isPrefixOf_iff_prefix.1 hmark) (List.prefix_append text s.toList)
    with hp | hp
  · rw [List.isPrefixOf_iff_prefix.2 hp] at h
    cases h
  · rw [List.isPrefixOf_iff_prefix.2 hp] at h'
    cases h'

theorem filter_fileLines {v : FileVerdict} (h : v.passed = v.diagnostics.isEmpty) :
    (fileLines v).filter showsFinding = v.diagnostics.map findingLine := by
  have hempty : showsFinding "" = false := showsFinding_literal rfl
  have hhead : showsFinding s!"Linting: {v.path.display}" = false := showsFinding_append rfl rfl
  have hpassed : showsFinding "  ✓ PASSED" = false := showsFinding_literal rfl
  have hfailed : showsFinding s!"  ❌ FAILED with {v.diagnostics.length} error(s):" = false := by
    rw [String.append_assoc]
    exact showsFinding_append rfl rfl
  have hall : (v.diagnostics.map findingLine).filter showsFinding = v.diagnostics.map findingLine :=
    List.filter_eq_self.2 (List.forall_mem_map.2 fun d _ => showsFinding_findingLine d)
  unfold fileLines
  cases hp : v.passed with
  | true =>
    rw [hp, eq_comm, List.isEmpty_iff] at h
    simp only [h, if_true, List.cons_append, List.nil_append, List.filter_cons, List.filter_nil, List.map_nil, hhead,
      hpassed, hempty, Bool.false_eq_true, if_false]
  | false =>
    simp only [Bool.false_eq_true, if_false, List.cons_append, List.filter_append, List.filter_cons, List.filter_nil,
      hhead, hfailed, hempty, List.append_nil]
    exact hall

theorem filter_modeLines (mode : RunMode) (errors : List RunError) :
    (modeLines mode errors).filter showsFinding = [] := by
  cases mode with
  | normal => rfl
  | test expected =>
    have hempty : showsFinding "" = false := showsFinding_literal rfl
    have hhead : showsFinding s!"Test mode: {expected.length} file(s) expected to fail." = false := by
      rw [String.append_assoc]
      exact showsFinding_append rfl rfl
    have herror (e : RunError) : showsFinding s!"  ❌ {e.message}" = false := showsFinding_append rfl rfl
    rw [List.filter_eq_nil_iff]
    unfold modeLines
    rw [List.forall_mem_append, List.forall_mem_cons, List.forall_mem_map]
    refine ⟨⟨ne_true_of_eq_false hhead, fun e _ => ne_true_of_eq_false (herror e)⟩, ?_⟩
    split
    · exact List.forall_mem_nil _
    · exact List.forall_mem_singleton.2 (ne_true_of_eq_false hempty)

theorem showsFinding_verdictLine (mode : RunMode) (o : Outcome) : showsFinding (verdictLine mode o) = false := by
  unfold verdictLine
  split
  · cases mode <;> exact showsFinding_literal rfl
  · rw [String.append_assoc, String.append_assoc, String.append_assoc]
    exact showsFinding_append rfl rfl

theorem filter_lines {mode : RunMode} {root : Path} {o : Outcome}
    (h : ∀ v ∈ o.files, v.passed = v.diagnostics.isEmpty) :
    (lines o mode root).filter showsFinding = (o.files.flatMap FileVerdict.diagnostics).map findingLine := by
  have hhead : showsFinding s!"Scanning for markup files in: {root.display}" = false := showsFinding_append rfl rfl
  have hnone : showsFinding "No markup files found." = false := showsFinding_literal rfl
  have hcount : showsFinding s!"Found {o.files.length} file(s) to lint:" = false := by
    rw [String.append_assoc]
    exact showsFinding_append rfl rfl
  have hempty : showsFinding "" = false := showsFinding_literal rfl
  have hlisted : (o.files.map fun v => s!"  - {v.path.display}").filter showsFinding = [] :=
    List.filter_eq_nil_iff.2 <| List.forall_mem_map.2 fun v _ => ne_true_of_eq_false (showsFinding_append rfl rfl)
  have hfiles : (o.files.flatMap fileLines).filter showsFinding =
      (o.files.flatMap FileVerdict.diagnostics).map findingLine := by
    rw [List.filter_flatMap, List.map_flatMap]
    exact List.flatMap_congr fun v hv => filter_fileLines (h v hv)
  unfold lines
  split
  next hnil =>
    rw [List.isEmpty_iff] at hnil
    simp only [hnil, List.filter_cons, List.filter_nil, hhead, hnone, Bool.false_eq_true, if_false, List.flatMap_nil,
      List.map_nil]
  next =>
    simp only [List.filter_cons, List.filter_append, List.filter_nil, List.cons_append, hhead, hcount, hlisted, hempty,
      hfiles, filter_modeLines, showsFinding_verdictLine, Bool.false_eq_true, if_false, List.append_nil,
      List.nil_append]

/-! ## How many lines there are -/

/-- How many lines a report has: four for each file and four around them, one for each finding, and in test mode one
that tells the mode, one for each error and one behind them. -/
def lineCount (mode : RunMode) (files findings errors : Nat) : Nat :=
  if files = 0 then 2
  else 4 + 4 * files + findings + match mode with
    | .normal => 0
    | .test _ => 1 + errors + if errors = 0 then 0 else 1

theorem length_fileLines {v : FileVerdict} (h : v.passed = v.diagnostics.isEmpty) :
    (fileLines v).length = 3 + v.diagnostics.length := by
  unfold fileLines
  split
  next hp =>
    rw [h, List.isEmpty_iff] at hp
    rw [hp]
    rfl
  next => simp only [List.length_append, List.length_cons, List.length_map, List.length_nil]; omega

theorem length_modeLines (mode : RunMode) (errors : List RunError) :
    (modeLines mode errors).length = match mode with
      | .normal => 0
      | .test _ => 1 + errors.length + if errors.length = 0 then 0 else 1 := by
  cases mode with
  | normal => rfl
  | test expected => cases errors <;> simp [modeLines]; omega

theorem length_flatMap_fileLines {verdicts : List FileVerdict}
    (h : ∀ v ∈ verdicts, v.passed = v.diagnostics.isEmpty) :
    (verdicts.flatMap fileLines).length = 3 * verdicts.length + (verdicts.flatMap FileVerdict.diagnostics).length := by
  induction verdicts with
  | nil => rfl
  | cons v verdicts ih =>
    obtain ⟨hv, hverdicts⟩ := List.forall_mem_cons.1 h
    simp only [List.flatMap_cons, List.length_append, length_fileLines hv, ih hverdicts, List.length_cons]
    omega

theorem length_lines {mode : RunMode} {root : Path} {o : Outcome}
    (h : ∀ v ∈ o.files, v.passed = v.diagnostics.isEmpty) :
    (lines o mode root).length =
      lineCount mode o.files.length (o.files.flatMap FileVerdict.diagnostics).length o.errors.length := by
  unfold lines lineCount
  split
  next hnil =>
    rw [List.isEmpty_iff] at hnil
    rw [hnil]
    rfl
  next hne =>
    have hpos : o.files.length ≠ 0 := fun h0 => hne (List.isEmpty_iff.2 (List.length_eq_zero_iff.1 h0))
    rw [if_neg hpos, ← length_modeLines mode o.errors]
    simp only [List.length_cons, List.length_append, List.length_map, List.length_nil, length_flatMap_fileLines h]
    omega

/-! ## Main theorem -/

/-- Whatever texts hold, no finding of root-only rules in them breaks a line. So a report on them has a line for each
finding, in their order, and no others that look like one, and how many lines there are follows from the mode and from
the numbers of files, findings and errors. -/
theorem text_lines :
    (∀ (elements : List String) (rules : Registry) (source : String), (Registry.rootOnly elements).2 = .ok rules →
      ∀ d ∈ (validate source rules).diagnostics, d.Unbroken) ∧
    ∀ (mode : RunMode) (root : Path) (verdicts : List FileVerdict), Unbroken root.display →
      (∀ v ∈ verdicts, v.OnText) →
      let o := mode.evaluate verdicts
      let findings := verdicts.flatMap FileVerdict.diagnostics
      '\r' ∉ (text o mode root).toList ∧
      ∃ lines : List String, (text o mode root).toList.splitOn '\n' = lines.map String.toList ++ [[]] ∧
        lines.filter showsFinding = findings.map findingLine ∧
        lines.length = lineCount mode verdicts.length findings.length o.errors.length := by
  refine ⟨fun elements rules source hrules d hd => Diagnostic.unbroken_of_validate hrules hd, ?_⟩
  intro mode root verdicts hroot hverdicts o findings
  have hfiles : o.files = verdicts := mode.evaluate_files verdicts
  have hpassed : ∀ v ∈ o.files, v.passed = v.diagnostics.isEmpty := fun v hv => (hverdicts v (hfiles ▸ hv)).passed_eq
  have herrors : ∀ e ∈ o.errors, Unbroken e.path.display := by
    intro e he
    obtain ⟨v, hv, hpath⟩ := RunMode.exists_of_mem_errors he
    rw [hpath]
    exact (hverdicts v hv).path
  have hlines : ∀ line ∈ lines o mode root, Unbroken line :=
    unbroken_of_mem_lines hroot (fun v hv => hverdicts v (hfiles ▸ hv)) herrors
  refine ⟨return_notMem_join_lines hlines, lines o mode root, splitOn_join_lines hlines, ?_, ?_⟩
  · rw [filter_lines hpassed, hfiles]
  · rw [length_lines hpassed, hfiles]

/-- Two texts with line breaks next to what is wrong in them. -/
theorem text_lines_of_two : ∃ rules, (Registry.rootOnly ["b"]).2 = .ok rules ∧
    let a : FileVerdict := .ofValidation (.ofString "a") (validate "<a>\r\n\n<b/></a>" rules)
    let c : FileVerdict := .ofValidation (.ofString "c") (validate "<c\n\r=" rules)
    let mode : RunMode := .test [.ofString "a"]
    ∃ lines : List String,
      (text (mode.evaluate [a, c]) mode (.ofString ".")).toList.splitOn '\n' = lines.map String.toList ++ [[]] ∧
      lines.filter showsFinding =
        ["    - 3:1: [structural-violation] <b> may only appear as the document root, found inside <a> (root-only:b)",
          "    - 3:1: [malformed-syntax] unexpected character '=' in tag <c>"] ∧
      lines.length = 17 := by
  have hrules : (Registry.rootOnly ["b"]).2 = .ok ⟨[RootOnly.rule "b"], by simp⟩ := rfl
  refine ⟨_, hrules, ?_⟩
  intro a c mode
  have ha : a.OnText := ⟨⟨by decide +kernel, by decide +kernel⟩, ["b"], _, _, hrules, rfl⟩
  have hc : c.OnText := ⟨⟨by decide +kernel, by decide +kernel⟩, ["b"], _, _, hrules, rfl⟩
  have hroot : Unbroken (Path.ofString ".").display := ⟨by decide +kernel, by decide +kernel⟩
  have hfindings : ([a, c].flatMap FileVerdict.diagnostics).map findingLine =
      ["    - 3:1: [structural-violation] <b> may only appear as the document root, found inside <a> (root-only:b)",
        "    - 3:1: [malformed-syntax] unexpected character '=' in tag <c>"] := by decide +kernel
  have hcount : lineCount mode 2 ([a, c].flatMap FileVerdict.diagnostics).length
      (mode.evaluate [a, c]).errors.length = 17 := by decide +kernel
  obtain ⟨-, lines, hlines, hshown, hlength⟩ :=
    text_lines.2 mode (.ofString ".") [a, c] hroot (List.forall_mem_cons.2 ⟨ha, List.forall_mem_singleton.2 hc⟩)
  exact ⟨lines, hlines, hshown.trans hfindings, hlength.trans hcount⟩

end Report

end TagLint
