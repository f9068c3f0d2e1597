import Mathlib.Data.List.Forall2
import TagLint.Config.Basic
import TagLint.Proofs.List.Steps
import TagLint.Proofs.Path.Order
import TagLint.Proofs.Rules.Registration
import TagLint.Proofs.Text.Utf8
/-!
# Settings put together

`Config.Sources` are the settings as their sources give them, and `Config.Merges` says what each setting of a run is
of these: of lists every entry, at its first occurrence, of single settings the one that comes first in line. The
main theorem is `resolve_merges`.
-/

namespace TagLint

namespace Config

/-! ## Sources -/

/-- The settings as the configuration file gives them, and the lists that the environment gives. -/
structure Sources where
  settings : FileSettings
  rootOnly : List String
  expectedFailures : List String

/-- What a configuration file gives: without a file no setting at all, else what the text says that its bytes
encode. -/
inductive GivesSettings (fs : FileSystem) : Option Path → FileSettings → Prop
  | default : GivesSettings fs none { extensions := none, rootOnly := [], testEnabled := none, expectedFailures := [] }
  | file {path : Path} {text : List Char} {settings : FileSettings} : fs.read path = .ok (Utf8.encode text) →
      FileSettings.parse text = some settings → GivesSettings fs (some path) settings

section

variable {a : CommandLine.Arguments} {env : Environment} {fs : FileSystem} {settings : FileSettings}

/-- What the file of a run and the variables hold. -/
structure Sources.ReadFrom (s : Sources) (a : CommandLine.Arguments) (env : Environment) (fs : FileSystem) :
    Prop where
  settings : GivesSettings fs (file? a env fs) s.settings
  rootOnly : variableList Environment.rootOnlyName env.rootOnly = .ok s.rootOnly
  expectedFailures : variableList Environment.expectedFailuresName env.expectedFailures = .ok s.expectedFailures

/-- All elements that are said to be allowed only as the root: by the file, the environment, the command line. -/
def Sources.elements (s : Sources) (a : CommandLine.Arguments) : List String :=
  s.settings.rootOnly ++ s.rootOnly ++ a.rootOnly

/-- All files that are said to fail: by the file, the environment, the command line. -/
def Sources.entries (s : Sources) (a : CommandLine.Arguments) : List Path :=
  s.settings.expectedFailures ++ s.expectedFailures.map Path.ofString ++ a.expectedFailures

/-- Which extensions count: those of the command line, if it gives any, else those of the file. -/
inductive GivesExtensions (a : CommandLine.Arguments) (settings : FileSettings) : List String → Prop
  | commandLine : a.extensions ≠ [] → GivesExtensions a settings a.extensions
  | file {given : List String} : a.extensions = [] → settings.extensions = some given → GivesExtensions a settings given
  | default : a.extensions = [] → settings.extensions = none → GivesExtensions a settings ["html"]

/-- An extension as it is given, and without the dots in front. -/
def Undotted (given extension : String) : Prop :=
  ∃ n, given.toList = List.replicate n '.' ++ extension.toList ∧ extension.toList.head? ≠ some '.'

/-- What tells whether a run is in test mode: the flag, else the variable, else the file. -/
inductive DecidesTestMode (a : CommandLine.Arguments) (env : Environment) (settings : FileSettings) : Bool → Prop
  | flag : a.testMode = true → DecidesTestMode a env settings true
  | environment {text : String} {on : Bool} : a.testMode = false → env.testMode = some text →
      parseSwitch text = some on → DecidesTestMode a env settings on
  | file {on : Bool} : a.testMode = false → env.testMode = none → settings.testEnabled = some on →
      DecidesTestMode a env settings on
  | default : a.testMode = false → env.testMode = none → settings.testEnabled = none →
      DecidesTestMode a env settings false

/-! ## The file -/

theorem loadFile_eq_ok_iff {path : Path} :
    loadFile fs path = .ok settings ↔
      ∃ text, fs.read path = .ok (Utf8.encode text) ∧ FileSettings.parse text = some settings := by
  have htext (text : List Char) : fs.read path = .ok (Utf8.encode text) ↔
      ((fs.read path).toOption.bind fun bytes => (Utf8.decode bytes).toOption) = some text := by
    cases fs.read path with
    | error e => exact ⟨nofun, nofun⟩
    | ok bytes =>
      rw [Except.ok.injEq, ← Utf8.decode_eq_ok_iff]
      cases hdecode : Utf8.decode bytes <;> simp [Except.toOption, hdecode]
  simp only [htext]
  unfold loadFile
  cases (fs.read path).toOption.bind fun bytes => (Utf8.decode bytes).toOption with
  | none => exact ⟨nofun, nofun⟩
  | some text =>
    simp only [Option.some.injEq, exists_eq_left']
    cases FileSettings.parse text <;> simp

theorem fileSettings_eq_ok_iff {path? : Option Path} :
    fileSettings fs path? = .ok settings ↔ GivesSettings fs path? settings := by
  cases path? with
  | none =>
    constructor
    · intro h
      obtain rfl := Except.ok.inj h
      exact .default
    · intro h
      cases h
      rfl
  | some path =>
    rw [fileSettings, loadFile_eq_ok_iff]
    constructor
    · rintro ⟨text, hread, hparse⟩
      exact .file hread hparse
    · intro h
      cases h with
      | file hread hparse => exact ⟨_, hread, hparse⟩

theorem GivesSettings.unique {path? : Option Path} {settings' : FileSettings} (h : GivesSettings fs path? settings)
    (h' : GivesSettings fs path? settings') : settings = settings' :=
  Except.ok.inj ((fileSettings_eq_ok_iff.2 h).symm.trans (fileSettings_eq_ok_iff.2 h'))

/-! ## Single settings -/

theorem undotted_dropWhile (e : String) : Undotted e (String.ofList (e.toList.dropWhile (· == '.'))) := by
  refine ⟨(e.toList.takeWhile (· == '.')).length, ?_, ?_⟩
  · have hdots : e.toList.takeWhile (· == '.') = List.replicate (e.toList.takeWhile (· == '.')).length '.' :=
      List.eq_replicate_iff.2 ⟨rfl, fun c hc => beq_iff_eq.1 (List.all_eq_true.1 List.all_takeWhile c hc)⟩
    rw [← hdots, String.toList_ofList, List.takeWhile_append_dropWhile]
  · intro h
    have hfirst := List.head?_dropWhile_not (· == '.') e.toList
    rw [String.toList_ofList] at h
    simp [h] at hfirst

theorem givesExtensions_ite :
    GivesExtensions a settings (if a.extensions.isEmpty then settings.extensions.getD ["html"] else a.extensions) := by
  split
  next hempty =>
    have hempty := List.isEmpty_iff.1 hempty
    cases hfile : settings.extensions with
    | none => exact .default hempty hfile
    | some given => exact .file hempty hfile
  next hgiven => exact .commandLine (mt List.isEmpty_iff.2 hgiven)

theorem resolveExtensions_eq_ok {extensions : List String} (h : resolveExtensions a settings = .ok extensions) :
    ∃ given, GivesExtensions a settings given ∧ List.Forall₂ Undotted given extensions ∧ "" ∉ extensions := by
  refine ⟨_, givesExtensions_ite, ?_⟩
  unfold resolveExtensions at h
  generalize (if a.extensions.isEmpty then settings.extensions.getD ["html"] else a.extensions) = given at h ⊢
  dsimp only at h
  split at h
  next => cases h
  next hnone =>
    obtain rfl := Except.ok.inj h
    refine ⟨?_, fun hm => hnone (List.any_eq_true.2 ⟨"", hm, rfl⟩)⟩
    rw [List.forall₂_map_right_iff, List.forall₂_same]
    exact fun e _ => undotted_dropWhile e

theorem resolveTestMode_eq_ok {on : Bool} (h : resolveTestMode a env settings = .ok on) :
    DecidesTestMode a env settings on := by
  rw [resolveTestMode] at h
  split at h
  next hflag =>
    obtain rfl := Except.ok.inj h
    exact .flag hflag
  next hflag =>
    have hflag := Bool.eq_false_iff.2 hflag
    cases hvariable : env.testMode with
    | none =>
      rw [hvariable] at h
      cases hfile : settings.testEnabled with
      | none =>
        rw [hfile] at h
        obtain rfl := Except.ok.inj h
        exact .default hflag hvariable hfile
      | some enabled =>
        rw [hfile] at h
        obtain rfl := Except.ok.inj h
        exact .file hflag hvariable hfile
    | some text =>
      simp only [hvariable] at h
      cases hword : parseSwitch text with
      | none => rw [hword] at h; cases h
      | some on' =>
        rw [hword] at h
        obtain rfl := Except.ok.inj h
        exact .environment hflag hvariable hword

/-! ## Lists -/

theorem resolveRootOnly_eq_ok {elements : List String} (h : resolveRootOnly a env settings = .ok elements) :
    ∃ fromVariable, variableList Environment.rootOnlyName env.rootOnly = .ok fromVariable ∧
      Firsts id (settings.rootOnly ++ fromVariable ++ a.rootOnly) elements := by
  obtain ⟨fromVariable, hvariable, h⟩ := ok_of_bind h
  refine ⟨fromVariable, hvariable, ?_⟩
  dsimp only at h
  split at h
  next => cases h
  next =>
    obtain rfl := Except.ok.inj h
    exact firsts_eraseDupsBy (fun _ _ => beq_iff_eq) _

theorem resolveExpectedFailures_eq_ok {paths : List Path} (h : resolveExpectedFailures a env settings = .ok paths) :
    ∃ fromVariable, variableList Environment.expectedFailuresName env.expectedFailures = .ok fromVariable ∧
      Firsts Path.components ((settings.expectedFailures ++ fromVariable.map Path.ofString ++ a.expectedFailures).map
        (rootOf env).join) paths := by
  obtain ⟨fromVariable, hvariable, h⟩ := ok_of_bind h
  obtain rfl := Except.ok.inj h
  exact ⟨fromVariable, hvariable, firsts_eraseDupsBy (fun _ _ => beq_iff_eq) _⟩

/-- Dropping paths of the same components from a list drops nothing from the set of the list. -/
theorem mem_pathSet_of_firsts {paths kept : List Path} (h : Firsts Path.components paths kept) (p : Path) :
    p ∈ RunMode.pathSet kept ↔ ∃ q ∈ paths, p = q.normalize := by
  have hsame {q q' : Path} (h : q.components = q'.components) : q.normalize = q'.normalize := by
    rw [Path.normalize, h, Path.normalize]
  rw [(RunMode.pathSet_spec kept).2, List.mem_map]
  constructor
  · rintro ⟨q, hq, rfl⟩
    obtain ⟨q', hq', he⟩ := List.mem_map.1 ((h.mem_map_iff _).1 (List.mem_map_of_mem hq))
    exact ⟨q', hq', hsame he.symm⟩
  · rintro ⟨q, hq, rfl⟩
    obtain ⟨q', hq', he⟩ := List.mem_map.1 ((h.mem_map_iff _).2 (List.mem_map_of_mem hq))
    exact ⟨q', hq', hsame he⟩

/-! ## All settings -/

/-- The steps to a configuration, from the settings as the sources give them. -/
structure Resolved (c : Config) (a : CommandLine.Arguments) (env : Environment) (fs : FileSystem) (s : Sources) :
    Prop where
  read : s.ReadFrom a env fs
  root : c.root = rootOf env
  paths : c.paths = if a.paths.isEmpty then [c.root] else a.paths.map c.root.join
  extensions : resolveExtensions a s.settings = .ok c.extensions
  rootOnly : Firsts id (s.elements a) c.rootOnly
  testMode : resolveTestMode a env s.settings = .ok c.testMode
  expectedFailures : Firsts Path.components ((s.entries a).map c.root.join) c.expectedFailures

theorem resolved_of_resolve {c : Config} (h : resolve a env fs = .ok c) : ∃ s, c.Resolved a env fs s := by
  obtain ⟨settings, hsettings, h⟩ := ok_of_bind h
  obtain ⟨extensions, hextensions, h⟩ := ok_of_bind h
  obtain ⟨rootOnly, hrootOnly, h⟩ := ok_of_bind h
  obtain ⟨testMode, htestMode, h⟩ := ok_of_bind h
  obtain ⟨expectedFailures, hexpectedFailures, h⟩ := ok_of_bind h
  obtain rfl := Except.ok.inj h
  obtain ⟨elements, helements, hrootOnly⟩ := resolveRootOnly_eq_ok hrootOnly
  obtain ⟨entries, hentries, hexpectedFailures⟩ := resolveExpectedFailures_eq_ok hexpectedFailures
  exact ⟨⟨settings, elements, entries⟩, ⟨fileSettings_eq_ok_iff.1 hsettings, helements, hentries⟩, rfl, rfl, hextensions,
    hrootOnly, htestMode, hexpectedFailures⟩

/-- What the settings of a run are of what its sources give. -/
structure Merges (c : Config) (a : CommandLine.Arguments) (env : Environment) (s : Sources) : Prop where
  root : c.root = rootOf env
  rootOnly : Firsts id (s.elements a) c.rootOnly
  distinct : c.rootOnly.Nodup
  registry : ∃ registry,
    Registry.rootOnly c.rootOnly = (c.rootOnly.map fun e => .ruleRegistered s!"root-only:{e}", .ok registry) ∧
      registry.rules = c.rootOnly.map RootOnly.rule ∧ registry.names = c.rootOnly.map fun e => s!"root-only:{e}"
  expectedFailures : Firsts Path.components ((s.entries a).map c.root.join) c.expectedFailures
  expected : ∃ expected, RunMode.expecting c.expectedFailures = .test expected ∧
    ∀ p, p ∈ expected ↔ ∃ q ∈ s.entries a, p = (c.root.join q).normalize
  extensions : ∃ given, GivesExtensions a s.settings given ∧ List.Forall₂ Undotted given c.extensions ∧
    "" ∉ c.extensions
  testMode : DecidesTestMode a env s.settings c.testMode

/-- Every configuration is put together from its sources, and nothing gets lost: it holds each element and each
expected failure at its first occurrence, the rules for its elements can all be registered, the set of its expected
failures has the normalized form of every entry, and each single setting is that of the first source in line. -/
theorem resolve_merges {c : Config} (h : resolve a env fs = .ok c) :
    ∃ s : Sources, s.ReadFrom a env fs ∧ c.Merges a env s := by
  obtain ⟨s, hc⟩ := resolved_of_resolve h
  have hdistinct : c.rootOnly.Nodup := by simpa using hc.rootOnly.nodup
  refine ⟨s, hc.read, {
    root := hc.root
    rootOnly := hc.rootOnly
    distinct := hdistinct
    registry := Registry.rootOnly_of_nodup hdistinct
    expectedFailures := hc.expectedFailures
    expected := ⟨_, rfl, fun p => ?_⟩
    extensions := resolveExtensions_eq_ok hc.extensions
    testMode := resolveTestMode_eq_ok hc.testMode }⟩
  simp only [mem_pathSet_of_firsts hc.expectedFailures, List.mem_map, exists_exists_and_eq_and]

/-- Settings of all three sources: each gives an element and a file that no other one gives, and what two of them give
is there once. -/
theorem resolve_merges_three_sources :
    let a : CommandLine.Arguments :=
      { CommandLine.Arguments.default with
        config := some (.ofString "lint.toml"), rootOnly := ["y", "z"], extensions := ["..xml"],
        expectedFailures := [.ofString "./b.html", .ofString "c.html"] }
    let env : Environment := ⟨some "site", some "on", some "a.html, b.html", some "x,v,y", none, none⟩
    let text := "root_only = [\"w\", \"x\"]\n[test]\nexpected_failures = [\"f.html\"]\n"
    let fs := FileSystem.ofAnswers [] [(.ofString "lint.toml", .ok (Utf8.encode text.toList))]
    ∃ c : Config, resolve a env fs = .ok c ∧ c.rootOnly = ["w", "x", "v", "y", "z"] ∧
      c.expectedFailures = ["site/f.html", "site/a.html", "site/b.html", "site/c.html"].map .ofString ∧
      c.extensions = ["xml"] ∧ c.testMode = true ∧ ∃ s : Sources, s.ReadFrom a env fs ∧ c.Merges a env s := by
  intro a env text fs
  have hresolve : resolve a env fs = .ok
      { root := .ofString "site", paths := [.ofString "site"], extensions := ["xml"], rootOnly := ["w", "x", "v", "y", "z"]
        testMode := true
        expectedFailures := ["site/f.html", "site/a.html", "site/b.html", "site/c.html"].map .ofString
        format := .text, logLevel := "warn", file := some (.ofString "lint.toml") } := by decide +kernel
  exact ⟨_, hresolve, rfl, rfl, rfl, rfl, resolve_merges hresolve⟩

end

end Config

end TagLint
