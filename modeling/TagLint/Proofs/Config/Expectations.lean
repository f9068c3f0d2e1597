import TagLint.Proofs.Config.Merging
import TagLint.Proofs.Discovery.Found
/-!
# Expected failures meet their files

Files are found below the inputs, expected failures are listed by themselves, and the two are spelled apart. They
meet all the same: an entry is the expectation of a file exactly if it goes the way of the input and on through the
names that lead to the file (`Config.mem_expected_iff`).
-/

namespace TagLint

namespace Config

/-- The inputs of a run, with the path that gives them as seen from the root. Without any the root is the input, and
the path to it is empty. -/
inductive GivesInput (a : CommandLine.Arguments) (root : Path) : Path → Path → Prop
  | default : a.paths = [] → GivesInput a root ⟨[]⟩ root
  | given {p : Path} : p ∈ a.paths → GivesInput a root p (root.join p)

section

variable {a : CommandLine.Arguments} {env : Environment} {fs : FileSystem} {c : Config} {s : Sources}
  {root p input : Path}

theorem mem_paths_iff (hc : c.Resolved a env fs s) : input ∈ c.paths ↔ ∃ p, GivesInput a c.root p input := by
  rw [hc.paths]
  split
  next hempty =>
    have hempty := List.isEmpty_iff.1 hempty
    rw [List.mem_singleton]
    constructor
    · rintro rfl
      exact ⟨_, .default hempty⟩
    · rintro ⟨p, hp⟩
      cases hp with
      | default => rfl
      | given hmem => rw [hempty] at hmem; cases hmem
  next hgiven =>
    rw [List.mem_map]
    constructor
    · rintro ⟨p, hmem, rfl⟩
      exact ⟨p, .given hmem⟩
    · rintro ⟨p, hp⟩
      cases hp with
      | default hempty => exact absurd (List.isEmpty_iff.2 hempty) hgiven
      | given hmem => exact ⟨p, hmem, rfl⟩

theorem GivesInput.route_eq (h : GivesInput a root p input) (hp : p.isAbsolute = false) :
    input.route = root.route ++ p.route := by
  cases h with
  | default => exact (List.append_nil _).symm
  | given => exact Path.route_join hp

/-- Among entries seen from a root are all spellings of the way to a file. -/
theorem normalize_mem_pathSet_iff {entries kept : List Path} {file : Path} {way : List Component}
    (hkept : Firsts Path.components (entries.map root.join) kept) (hentries : ∀ q ∈ entries, q.isAbsolute = false)
    (hfile : file.route = root.route ++ way) :
    file.normalize ∈ RunMode.pathSet kept ↔ ∃ q ∈ entries, q.route = way := by
  simp only [mem_pathSet_of_firsts hkept, List.mem_map, exists_exists_and_eq_and, Path.normalize_eq_normalize_iff, hfile]
  refine exists_congr fun q => and_congr_right fun hq => ?_
  rw [Path.route_join (hentries q hq), List.append_cancel_left_eq, eq_comm]

/-- In test mode the files of a run are those found below its inputs. If inputs and entries are relative to the root,
such a file is expected to fail exactly if some entry, however it is spelled, goes the way of the input and on through
the names that lead from it to the file. -/
theorem mem_expected_iff (h : resolve a env fs = .ok c) (htest : c.testMode = true) (hfs : fs.Named) :
    ∃ s : Sources, s.ReadFrom a env fs ∧ ∃ expected, c.mode = .test expected ∧
      (∀ files, Discovery.discover fs c.extensions c.paths = .ok files → ∀ file, file ∈ files ↔
        ∃ p input names, GivesInput a (rootOf env) p input ∧ Discovery.Finds fs c.extensions input names ∧
          file = input.extend names) ∧
      ((∀ q ∈ s.entries a, q.isAbsolute = false) → ∀ p input names, GivesInput a (rootOf env) p input →
        p.isAbsolute = false → Discovery.Finds fs c.extensions input names →
          ((input.extend names).normalize ∈ expected ↔ ∃ q ∈ s.entries a, q.route = p.route ++ names.map .name)) := by
  obtain ⟨s, hc⟩ := resolved_of_resolve h
  refine ⟨s, hc.read, _, by rw [mode, if_pos htest, RunMode.expecting], fun files hfiles file => ?_,
    fun hentries p input names hinput hp hfound => ?_⟩
  · rw [Discovery.mem_discover_iff hfiles, ← hc.root]
    simp only [mem_paths_iff hc]
    constructor
    · rintro ⟨input, ⟨p, hinput⟩, names, hfound, hfile⟩
      exact ⟨p, input, names, hinput, hfound, hfile⟩
    · rintro ⟨p, input, names, hinput, hfound, hfile⟩
      exact ⟨input, ⟨p, hinput⟩, names, hfound, hfile⟩
  · refine normalize_mem_pathSet_iff hc.expectedFailures hentries ?_
    rw [Path.route_extend (hfound.isStep hfs), hinput.route_eq hp, hc.root, List.append_assoc]

/-- Root, input and entry are spelled in three ways, and the entry is still that of the file. -/
theorem mem_expected_iff_respelled :
    let a : CommandLine.Arguments :=
      { CommandLine.Arguments.default with
        paths := [.ofString "./pages//"], testMode := true, expectedFailures := [.ofString "pages/sub/./b.html/"] }
    let env : Environment := ⟨some "./site/", none, none, none, none, none⟩
    let sub := Entry.directory (Path.ofString "sub").bytes [.file (Path.ofString "b.html").bytes]
    let fs : FileSystem :=
      ⟨fun p => if p = .ofString "./site/./pages//" then some (.directory [] [sub]) else none, fun _ => .ok []⟩
    let file := Path.ofString "./site/./pages//sub/b.html"
    ∃ c expected, resolve a env fs = .ok c ∧ c.mode = .test expected ∧
      Discovery.discover fs c.extensions c.paths = .ok [file] ∧ file.normalize ∈ expected := by
  intro a env sub fs file
  have hresolve : resolve a env fs = .ok
      { root := .ofString "./site/", paths := [.ofString "./site/./pages//"], extensions := ["html"], rootOnly := []
        testMode := true, expectedFailures := [.ofString "./site/pages/sub/./b.html/"]
        format := .text, logLevel := "warn", file := none } := by decide +kernel
  have hsettings : GivesSettings fs (file? a env fs) .default := fileSettings_eq_ok_iff.1 (by decide +kernel)
  have hlook : fs.look (.ofString "./site/./pages//") = some (.directory [] [sub]) := by simp [fs]
  have hdiscover : Discovery.discover fs ["html"] [.ofString "./site/./pages//"] = .ok [file] := by
    have hmeta : (Path.ofString "sub").bytes ∉ Discovery.metadataNames := by decide
    have hext : Discovery.hasExtension ["html"] (Path.ofString "b.html").bytes = true := by decide
    rw [Discovery.discover, List.mapM_cons, Discovery.filesOf, hlook]
    simp [sub, Discovery.sorted, Discovery.filesIn, Discovery.filesAt, hmeta, hext]
    decide
  have hsub : (Component.name (Path.ofString "sub").bytes).IsStep :=
    .name (by decide) (by decide) (by decide) (by decide)
  have hhtml : (Component.name (Path.ofString "b.html").bytes).IsStep :=
    .name (by decide) (by decide) (by decide) (by decide)
  have hnamed : fs.Named := by
    intro input name entries hentries e he
    by_cases hi : input = .ofString "./site/./pages//"
    · rw [hi, hlook] at hentries
      obtain ⟨-, rfl⟩ := Entry.directory.inj (Option.some.inj hentries)
      cases he with
      | here hmem => obtain rfl := List.mem_singleton.1 hmem; exact hsub
      | deeper hmem hinner =>
        obtain ⟨-, rfl⟩ := Entry.directory.inj (List.mem_singleton.1 hmem)
        cases hinner with
        | here hmem => obtain rfl := List.mem_singleton.1 hmem; exact hhtml
        | deeper hmem => cases List.mem_singleton.1 hmem
    · simp [fs, hi] at hentries
  obtain ⟨s, hread, expected, hmode, -, hiff⟩ := mem_expected_iff hresolve rfl hnamed
  have hentries : s.entries a = [.ofString "pages/sub/./b.html/"] := by
    rw [Sources.entries, ← hsettings.unique hread.settings, ← Except.ok.inj hread.expectedFailures]
    rfl
  rw [hentries] at hiff
  refine ⟨_, expected, hresolve, hmode, hdiscover, ?_⟩
  refine (hiff (by decide) _ _ _ (.given List.mem_cons_self) (by decide)
    (.below hlook (.directory List.mem_cons_self (by decide) (.file List.mem_cons_self (by decide))))).2 ?_
  exact ⟨_, List.mem_cons_self, by decide⟩

end

end Config

end TagLint
