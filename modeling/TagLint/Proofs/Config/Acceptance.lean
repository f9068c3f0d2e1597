import TagLint.Proofs.Config.Merging
import TagLint.Proofs.Path.Spelling
import TagLint.Proofs.Text.Trimming
/-!
# Which settings are accepted

There is a configuration exactly if the file of a run can be read and every list, name and extension is well formed.
Of the variable for test mode the flag decides whether it is read at all (`resolve_accepts`).
-/

namespace TagLint.Config

/-! ## Values of variables -/

/-- The entries of a list: none of a blank text, else what stands between the commas, without the space around it.
None of them is blank. -/
inductive Lists (text : String) : List String → Prop
  | blank : (∀ c ∈ text.toList, isBlank c) → Lists text []
  | entries {pieces : List (List Char)} {names : List String} :
    pieces ≠ [] → text.toList = [','].intercalate pieces → (∀ piece ∈ pieces, ',' ∉ piece) →
      List.Forall₂ (fun piece name => TrimsTo piece name.toList ∧ name ≠ "") pieces names → Lists text names

/-- The first piece of a text stands at its front. -/
theorem subset_intercalate_cons (separator first : List Char) (pieces : List (List Char)) :
    first ⊆ separator.intercalate (first :: pieces) := by
  cases pieces with
  | nil => simp
  | cons piece pieces => simp [List.intercalate]

theorem findIdx?_isEmpty_eq_none_iff {pieces : List (List Char)} :
    (pieces.map trimChars).findIdx? List.isEmpty = none ↔ ∀ piece ∈ pieces, trimChars piece ≠ [] := by
  simp [List.findIdx?_eq_none_iff]

/-- What pieces are trimmed to is what is read of them. -/
theorem trimmed_of_forall₂ {pieces : List (List Char)} {names : List String}
    (h : List.Forall₂ (fun piece name => TrimsTo piece name.toList ∧ name ≠ "") pieces names) :
    (∀ piece ∈ pieces, trimChars piece ≠ []) ∧ (pieces.map trimChars).map String.ofList = names := by
  induction h with
  | nil => exact ⟨nofun, rfl⟩
  | @cons piece name pieces names hname _ ih =>
    obtain ⟨htrims, hne⟩ := hname
    obtain ⟨hfilled, hread⟩ := ih
    constructor
    · intro p hp
      rcases List.mem_cons.1 hp with rfl | hp
      · rw [htrims.trimChars_eq]
        exact fun hempty => hne (String.toList_eq_nil_iff.1 hempty)
      · exact hfilled p hp
    · rw [List.map_cons, List.map_cons, hread, htrims.trimChars_eq, String.ofList_toList]

theorem parseList_eq_ok_iff {text : String} {names : List String} : parseList text = .ok names ↔ Lists text names := by
  unfold parseList
  constructor
  · intro h
    dsimp only at h
    split at h
    next hblank =>
      obtain rfl := Except.ok.inj h
      exact .blank (trimChars_eq_nil_iff.1 (List.isEmpty_iff.1 hblank))
    next =>
      split at h
      next => cases h
      next hnone =>
        obtain rfl := Except.ok.inj h
        have hfilled := findIdx?_isEmpty_eq_none_iff.1 hnone
        apply @Lists.entries text (splitOn ',' text.toList)
        · rw [splitOn_eq]
          exact List.splitOn_ne_nil _ _
        · rw [splitOn_eq]
          exact (List.intercalate_splitOn ',').symm
        · exact fun piece hp => notMem_of_mem_splitOn hp
        · rw [List.map_map, List.forall₂_map_right_iff, List.forall₂_same]
          intro piece hp
          refine ⟨?_, fun hempty => hfilled piece hp ?_⟩
          · rw [Function.comp_apply, String.toList_ofList]
            exact trimsTo_trimChars piece
          · simpa using congrArg String.toList hempty
  · intro h
    cases h with
    | blank hblank => rw [if_pos (List.isEmpty_iff.2 (trimChars_eq_nil_iff.2 hblank))]
    | @entries pieces names hne htext hcomma hnames =>
      have hsplit : splitOn ',' text.toList = pieces := by
        rw [splitOn_eq, htext]
        exact List.splitOn_intercalate ',' hcomma hne
      obtain ⟨hfilled, hread⟩ := trimmed_of_forall₂ hnames
      have htrimmed : ¬ (trimChars text.toList).isEmpty := by
        intro hempty
        have hblank := trimChars_eq_nil_iff.1 (List.isEmpty_iff.1 hempty)
        obtain ⟨first, more, rfl⟩ := List.exists_cons_of_ne_nil hne
        apply hfilled first List.mem_cons_self
        apply trimChars_eq_nil_iff.2
        intro c hc
        apply hblank
        rw [htext]
        exact subset_intercalate_cons _ _ _ hc
      dsimp only
      rw [if_neg htrimmed, hsplit, findIdx?_isEmpty_eq_none_iff.2 hfilled, hread]

/-- The entries of a variable, none if it is not set. -/
def VariableLists (value : Option String) (names : List String) : Prop :=
  value = none ∧ names = [] ∨ ∃ text, value = some text ∧ Lists text names

theorem variableList_eq_ok_iff {name : String} {value : Option String} {names : List String} :
    variableList name value = .ok names ↔ VariableLists value names := by
  cases value with
  | none =>
    constructor
    · intro h
      exact .inl ⟨rfl, (Except.ok.inj h).symm⟩
    · rintro (⟨-, rfl⟩ | ⟨text, h, -⟩)
      · rfl
      · cases h
  | some text =>
    have hparse : variableList name (some text) = .ok names ↔ parseList text = .ok names := by
      unfold variableList
      cases hparse : parseList text with
      | error position =>
        dsimp only
        rw [hparse]
        exact iff_of_false nofun nofun
      | ok entries =>
        dsimp only
        rw [hparse]
        exact ⟨fun h => congrArg _ (Except.ok.inj h), fun h => congrArg _ (Except.ok.inj h)⟩
    rw [hparse, parseList_eq_ok_iff]
    constructor
    · intro h
      exact .inr ⟨text, rfl, h⟩
    · rintro (⟨h, -⟩ | ⟨text', h, hlists⟩)
      · cases h
      · obtain rfl := Option.some.inj h
        exact hlists

/-- A text is a word that switches something on or off, in letters of either case and with space around it. -/
def IsSwitch (text : String) : Prop :=
  ∃ word, TrimsTo text.toList word ∧
    String.ofList (word.map Char.toLower) ∈ ["1", "true", "yes", "on", "0", "false", "no", "off", ""]

theorem isSwitch_iff {text : String} : IsSwitch text ↔ ∃ on, parseSwitch text = some on := by
  have hword : IsSwitch text ↔
      switchWord text ∈ ["1", "true", "yes", "on"] ∨ switchWord text ∈ ["0", "false", "no", "off", ""] := by
    rw [← List.mem_append]
    constructor
    · rintro ⟨word, htrims, hword⟩
      unfold switchWord
      rwa [htrims.trimChars_eq]
    · intro h
      exact ⟨_, trimsTo_trimChars text.toList, h⟩
  rw [hword]
  unfold parseSwitch
  dsimp only
  constructor
  · rintro (hon | hoff)
    · exact ⟨true, if_pos hon⟩
    · by_cases hon : switchWord text ∈ ["1", "true", "yes", "on"]
      · exact ⟨true, if_pos hon⟩
      · exact ⟨false, by rw [if_neg hon, if_pos hoff]⟩
  · rintro ⟨on, h⟩
    split at h
    next hon => exact .inl hon
    next =>
      split at h
      next hoff => exact .inr hoff
      next => cases h

/-- A name that can be that of an element. -/
def IsElementName (name : String) : Prop :=
  name ≠ "" ∧ ∀ c ∈ name.toList, isBlank c = false ∧ c ∉ ['<', '>', '/', '=', '"', '\'']

theorem isElementName_iff {name : String} : isElementName name ↔ IsElementName name := by
  unfold isElementName IsElementName
  have hmarks : "<>/=\"'".toList = ['<', '>', '/', '=', '"', '\''] := rfl
  rw [hmarks, Bool.and_eq_true, Bool.not_eq_true', String.isEmpty_eq_false_iff, List.all_eq_true]
  simp only [Bool.and_eq_true, Bool.not_eq_true', List.contains_eq_mem, decide_eq_false_iff_not]

/-! ## Single settings -/

variable {a : CommandLine.Arguments} {env : Environment} {fs : FileSystem} {settings : FileSettings}

theorem givesExtensions_iff {given : List String} : GivesExtensions a settings given ↔
    given = if a.extensions.isEmpty then settings.extensions.getD ["html"] else a.extensions := by
  constructor
  · intro h
    cases h with
    | commandLine hgiven => rw [if_neg (mt List.isEmpty_iff.1 hgiven)]
    | file hempty hfile => rw [if_pos (List.isEmpty_iff.2 hempty), hfile, Option.getD_some]
    | default hempty hfile => rw [if_pos (List.isEmpty_iff.2 hempty), hfile, Option.getD_none]
  · rintro rfl
    exact givesExtensions_ite

/-- Without the dots in front, nothing is left exactly of dots. -/
theorem isEmpty_undotted_iff {e : String} :
    (String.ofList (e.toList.dropWhile (· == '.'))).isEmpty ↔ ¬ ∃ c ∈ e.toList, c ≠ '.' := by
  rw [String.isEmpty_iff, String.ofList_eq_empty_iff, List.dropWhile_eq_nil_iff]
  simp

theorem exists_resolveExtensions_iff : (∃ extensions, resolveExtensions a settings = .ok extensions) ↔
    ∃ given, GivesExtensions a settings given ∧ ∀ e ∈ given, ∃ c ∈ e.toList, c ≠ '.' := by
  simp only [givesExtensions_iff, exists_eq_left]
  unfold resolveExtensions
  generalize (if a.extensions.isEmpty then settings.extensions.getD ["html"] else a.extensions) = given
  dsimp only
  constructor
  · rintro ⟨extensions, h⟩ e he
    split at h
    next => cases h
    next hnone =>
      by_contra hdots
      apply hnone
      rw [List.any_map]
      exact List.any_eq_true.2 ⟨e, he, isEmpty_undotted_iff.2 hdots⟩
  · intro h
    refine ⟨_, if_neg fun hany => ?_⟩
    rw [List.any_map] at hany
    obtain ⟨e, he, hempty⟩ := List.any_eq_true.1 hany
    exact isEmpty_undotted_iff.1 hempty (h e he)

theorem exists_resolveRootOnly_iff : (∃ elements, resolveRootOnly a env settings = .ok elements) ↔
    ∃ names, VariableLists env.rootOnly names ∧
      ∀ name ∈ settings.rootOnly ++ names ++ a.rootOnly, IsElementName name := by
  unfold resolveRootOnly
  rw [exists_ok_bind_iff]
  apply exists_congr
  intro names
  rw [variableList_eq_ok_iff]
  apply and_congr_right
  intro _
  dsimp only
  constructor
  · rintro ⟨elements, h⟩ name hname
    split at h
    next => cases h
    next hnone =>
      have hname := List.find?_eq_none.1 hnone name hname
      rw [Bool.not_eq_true', Bool.not_eq_false] at hname
      exact isElementName_iff.1 hname
  · intro h
    have hnone : (settings.rootOnly ++ names ++ a.rootOnly).find? (fun name => !isElementName name) = none := by
      apply List.find?_eq_none.2
      intro name hname
      rw [isElementName_iff.2 (h name hname)]
      exact Bool.false_ne_true
    rw [hnone]
    exact ⟨_, rfl⟩

theorem exists_resolveTestMode_iff : (∃ on, resolveTestMode a env settings = .ok on) ↔
    (a.testMode = false → ∀ text, env.testMode = some text → IsSwitch text) := by
  unfold resolveTestMode
  constructor
  · rintro ⟨on, h⟩ hflag text htext
    rw [if_neg (by rw [hflag]; exact Bool.false_ne_true), htext] at h
    dsimp only at h
    apply isSwitch_iff.2
    cases hword : parseSwitch text with
    | none =>
      rw [hword] at h
      cases h
    | some on' => exact ⟨on', rfl⟩
  · intro h
    split
    next => exact ⟨true, rfl⟩
    next hflag =>
      cases htext : env.testMode with
      | none => exact ⟨_, rfl⟩
      | some text =>
        obtain ⟨on, hon⟩ := isSwitch_iff.1 (h (Bool.eq_false_iff.2 hflag) text htext)
        dsimp only
        rw [hon]
        exact ⟨on, rfl⟩

theorem exists_resolveExpectedFailures_iff : (∃ paths, resolveExpectedFailures a env settings = .ok paths) ↔
    ∃ names, VariableLists env.expectedFailures names := by
  unfold resolveExpectedFailures
  rw [exists_ok_bind_iff]
  apply exists_congr
  intro names
  rw [variableList_eq_ok_iff]
  exact and_iff_left ⟨_, rfl⟩

/-! ## All settings -/

/-- What there must be for a configuration: a file that can be read, if one is used, and settings that are well formed
in each source. -/
structure Accepts (a : CommandLine.Arguments) (env : Environment) (fs : FileSystem) (s : Sources) : Prop where
  file : GivesSettings fs (file? a env fs) s.settings
  extensions : ∃ given, GivesExtensions a s.settings given ∧ ∀ e ∈ given, ∃ c ∈ e.toList, c ≠ '.'
  rootOnly : VariableLists env.rootOnly s.rootOnly
  expectedFailures : VariableLists env.expectedFailures s.expectedFailures
  elements : ∀ name ∈ s.elements a, IsElementName name
  /-- Behind the flag the variable is not read. -/
  switch : a.testMode = false → ∀ text, env.testMode = some text → IsSwitch text

theorem exists_resolve_iff : (∃ c, resolve a env fs = .ok c) ↔ ∃ s, Accepts a env fs s := by
  unfold resolve
  simp only [exists_ok_bind_iff, fileSettings_eq_ok_iff]
  constructor
  · rintro ⟨settings, hfile, extensions, hextensions, elements, helements, on, hon, paths, hpaths, -⟩
    obtain ⟨names, hnames, hall⟩ := exists_resolveRootOnly_iff.1 ⟨elements, helements⟩
    obtain ⟨entries, hentries⟩ := exists_resolveExpectedFailures_iff.1 ⟨paths, hpaths⟩
    exact ⟨⟨settings, names, entries⟩, {
      file := hfile
      extensions := exists_resolveExtensions_iff.1 ⟨extensions, hextensions⟩
      rootOnly := hnames
      expectedFailures := hentries
      elements := hall
      switch := exists_resolveTestMode_iff.1 ⟨on, hon⟩ }⟩
  · rintro ⟨s, h⟩
    obtain ⟨extensions, hextensions⟩ := exists_resolveExtensions_iff.2 h.extensions
    obtain ⟨elements, helements⟩ := exists_resolveRootOnly_iff.2 ⟨s.rootOnly, h.rootOnly, h.elements⟩
    obtain ⟨on, hon⟩ := exists_resolveTestMode_iff.2 h.switch
    obtain ⟨paths, hpaths⟩ := exists_resolveExpectedFailures_iff.2 ⟨s.expectedFailures, h.expectedFailures⟩
    exact ⟨s.settings, h.file, extensions, hextensions, elements, helements, on, hon, paths, hpaths, _, rfl⟩

theorem resolve_of_flag (a : CommandLine.Arguments) (env : Environment) (fs : FileSystem) (value : Option String) :
    resolve { a with testMode := true } { env with testMode := value } fs =
      resolve { a with testMode := true } env fs := rfl

/-- There is a configuration exactly if everything it is put together from is well formed, the variable for test mode
only where the flag is not given: behind the flag no value of it makes a difference. -/
theorem resolve_accepts (a : CommandLine.Arguments) (env : Environment) (fs : FileSystem) :
    ((∃ c, resolve a env fs = .ok c) ↔ ∃ s, Accepts a env fs s) ∧
      ∀ value, resolve { a with testMode := true } { env with testMode := value } fs =
        resolve { a with testMode := true } env fs :=
  ⟨exists_resolve_iff, resolve_of_flag a env fs⟩

/-- A word that is none of a switch, with the flag. -/
theorem resolve_accepts_flag : ∃ a : CommandLine.Arguments, CommandLine.Arguments.parse ["--test-mode"] = .ok a ∧
    let env : Environment := ⟨none, some "maybe", none, none, none, none⟩
    (∃ c, resolve a env (.ofAnswers [] []) = .ok c) ∧ env.testMode = some "maybe" ∧ ¬ IsSwitch "maybe" := by
  refine ⟨{ CommandLine.Arguments.default with testMode := true }, by decide +kernel, ?_⟩
  intro env
  refine ⟨⟨_, rfl⟩, rfl, ?_⟩
  rw [isSwitch_iff]
  rintro ⟨on, h⟩
  cases h

end TagLint.Config
