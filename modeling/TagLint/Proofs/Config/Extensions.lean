import TagLint.Proofs.Config.Merging
import TagLint.Proofs.Discovery.Walk
import TagLint.Proofs.Text.Utf8
/-!
# Which extensions find files

The extension of a file name stands behind its last dot. So an extension that is accepted finds every file whose name
ends in it, unless it has a dot itself: such a one is no extension of any name, and a run is the same without it
(`Config.discover_extension`).
-/

namespace TagLint

namespace Discovery

variable {extensions extensions' : List String} {e : String} {name : List UInt8}

/-! ## Names that end in an extension -/

/-- A file name is a stem, a dot and the extension in letters of either case. There may be dots in the stem, and in the
extension too. -/
def Carries (e : String) (name : List UInt8) : Prop :=
  ∃ stem found, stem ≠ [] ∧ name = stem ++ 0x2E :: found ∧ List.Forall₂ SameLetter (Path.ofString e).bytes found

theorem sameLetter_dot_iff {b : UInt8} : SameLetter b 0x2E ↔ b = 0x2E := by
  have hb := b.toNat_lt
  simp only [SameLetter, ← UInt8.toNat_inj, UInt8.toNat_add, UInt8.le_iff_toNat_le, UInt8.reduceToNat]
  omega

theorem sameLetter_dot_iff' {b : UInt8} : SameLetter 0x2E b ↔ b = 0x2E := by
  rw [← lowerByte_eq_iff, eq_comm, lowerByte_eq_iff, sameLetter_dot_iff]

/-- Letters of the other case leave the dots of an extension as they are. -/
theorem dot_mem_iff {found : List UInt8} (h : List.Forall₂ SameLetter (Path.ofString e).bytes found) :
    0x2E ∈ found ↔ '.' ∈ e.toList := by
  have hdot : '.' ∈ e.toList ↔ 0x2E ∈ (Path.ofString e).bytes := (Utf8.mem_encode_iff (a := '.') (by decide)).symm
  rw [hdot]
  generalize (Path.ofString e).bytes = bytes at h
  induction h with
  | nil => rfl
  | @cons a b _ _ hab _ ih =>
    have hfirst : 0x2E = b ↔ 0x2E = a := by
      constructor
      · rintro rfl
        exact (sameLetter_dot_iff.1 hab).symm
      · rintro rfl
        exact (sameLetter_dot_iff'.1 hab).symm
    rw [List.mem_cons, List.mem_cons]
    exact or_congr hfirst ih

theorem Carries.endsIn (h : Carries e name) (he : e ∈ extensions) (hdot : '.' ∉ e.toList) : EndsIn extensions name := by
  obtain ⟨stem, found, hstem, hname, hfound⟩ := h
  exact ⟨e, he, stem, found, hstem, hname, mt (dot_mem_iff hfound).1 hdot, hfound⟩

/-- A name that is found by an extension with a dot is found by another one. -/
theorem endsIn_filter (hdot : '.' ∈ e.toList) : EndsIn (extensions.filter (· ≠ e)) name ↔ EndsIn extensions name := by
  refine exists_congr fun other => ?_
  rw [List.mem_filter, and_assoc]
  refine and_congr_right fun _ => ?_
  rw [and_iff_right_iff_imp]
  rintro ⟨stem, found, -, -, hnone, hfound⟩
  rw [decide_eq_true_eq]
  rintro rfl
  exact hnone ((dot_mem_iff hfound).2 hdot)

/-! ## What is found depends on no more than which names have an extension -/

mutual

theorem filesAt_congr (h : ∀ name, hasExtension extensions name = hasExtension extensions' name) (directory : Path) :
    (e : Entry) → filesAt extensions directory e = filesAt extensions' directory e
  | .file name => by rw [filesAt, filesAt, h]
  | .other name => by rw [filesAt, filesAt]
  | .directory name entries => by rw [filesAt, filesAt, filesIn_congr h (directory.join ⟨name⟩) entries]

theorem filesIn_congr (h : ∀ name, hasExtension extensions name = hasExtension extensions' name) (directory : Path) :
    (entries : List Entry) → filesIn extensions directory entries = filesIn extensions' directory entries
  | [] => by rw [filesIn, filesIn]
  | e :: entries => by rw [filesIn, filesIn, filesAt_congr h directory e, filesIn_congr h directory entries]

end

theorem discover_congr (h : ∀ name, hasExtension extensions name = hasExtension extensions' name) (fs : FileSystem)
    (inputs : List Path) : discover fs extensions inputs = discover fs extensions' inputs := by
  have hfiles : filesOf fs extensions = filesOf fs extensions' := by
    funext input
    unfold filesOf
    simp only [filesIn_congr h]
  rw [discover, discover, hfiles]

/-! ## Files that carry an extension -/

/-- A run in the topmost directory begins there. -/
theorem nodeAt_current (nodes : List (List UInt8 × FileNode)) :
    FileTree.nodeAt ⟨.directory nodes, []⟩ (.ofString ".") = .ok (.directory nodes) := by
  have hbytes : (Path.ofString ".").bytes = [0x2E] := by decide
  have hpieces : (Path.ofString ".").pieces = [Component.current.bytes] := by decide
  refine FileTree.nodeAt_eq_ok_iff.2 ⟨[], ?_, rfl⟩
  rw [FileTree.locate, hbytes, if_neg (by decide), if_neg (by decide), if_neg (by decide), hpieces]
  simp [FileTree.startOf, FileTree.follow, FileNode.descend?]

/-- A file below a directory, by the names that lead there, none of which is that of a directory for the metadata of
version control. The name of the file ends in the extension. -/
structure CarriedBelow (e : String) (nodes : List (List UInt8 × FileNode)) (names : List (List UInt8)) : Prop where
  isFile : ∃ contents, (FileNode.directory nodes).descend? names = some (.file contents)
  outside : ∀ name ∈ names.dropLast, name ∉ metadataNames
  carries : ∀ name ∈ names.getLast?, Carries e name

theorem CarriedBelow.wanted {nodes : List (List UInt8 × FileNode)} {names : List (List UInt8)}
    (h : CarriedBelow e nodes names) (he : e ∈ extensions) (hdot : '.' ∉ e.toList) : Wanted extensions nodes names :=
  ⟨h.isFile, h.outside, fun name hname => (h.carries name hname).endsIn he hdot⟩

/-- What is wanted below an input is found. -/
theorem Wanted.mem_discover {t : FileTree} {inputs : List Path} {input : Path} {nodes : List (List UInt8 × FileNode)}
    {names : List (List UInt8)} (ht : t.root.Tidy) (hinputs : ∀ i ∈ inputs, t.Has i) (hinput : input ∈ inputs)
    (hnode : t.nodeAt input = .ok (.directory nodes)) (h : Wanted extensions nodes names) :
    ∃ files, discover t.fileSystem extensions inputs = .ok files ∧ input.extend names ∈ files := by
  obtain ⟨lists, -, hlists⟩ := discover_there ht extensions hinputs
  have hfiles : discover t.fileSystem extensions inputs = .ok lists.flatten := by
    rw [discover, hlists]
    rfl
  have hlook : t.fileSystem.look input = some (.directory [] (FileNode.entries nodes)) := by
    show (t.nodeAt input).toOption.map _ = _
    rw [hnode]
    rfl
  obtain ⟨place, -, hplace⟩ := FileTree.nodeAt_eq_ok_iff.1 hnode
  have hbelow := (below_entries_iff (ht.descend? hplace).1).2 h
  exact ⟨_, hfiles, (mem_discover_iff hfiles _).2 ⟨input, hinput, names, .below hlook hbelow, rfl⟩⟩

end Discovery

namespace Config

open Discovery

theorem head?_of_undotted {given extensions : List String} (h : List.Forall₂ Undotted given extensions) :
    ∀ e ∈ extensions, e.toList.head? ≠ some '.' := by
  induction h with
  | nil => exact fun e he => absurd he List.not_mem_nil
  | cons hgiven _ ih =>
    obtain ⟨_, -, hfirst⟩ := hgiven
    exact List.forall_mem_cons.2 ⟨hfirst, ih⟩

/-- An extension of a configuration is not empty and has no dot in front. If it has none at all, every file below an
input whose name is something, a dot and the extension is found, in whichever case its letters are; only directories for
the metadata of version control are left out. If it has a dot, no file is found for it: the same files are found without
it. -/
theorem discover_extension {a : CommandLine.Arguments} {env : Environment} {fs : FileSystem} {c : Config} {e : String}
    (h : resolve a env fs = .ok c) (he : e ∈ c.extensions) :
    e ≠ "" ∧ e.toList.head? ≠ some '.' ∧
    ('.' ∉ e.toList → ∀ (t : FileTree) (inputs : List Path) (input : Path) (nodes : List (List UInt8 × FileNode))
      (names : List (List UInt8)), t.root.Tidy → (∀ i ∈ inputs, t.Has i) → input ∈ inputs →
        t.nodeAt input = .ok (.directory nodes) → CarriedBelow e nodes names →
          ∃ files, discover t.fileSystem c.extensions inputs = .ok files ∧ input.extend names ∈ files) ∧
    ('.' ∈ e.toList → ∀ (fs' : FileSystem) (inputs : List Path),
      discover fs' c.extensions inputs = discover fs' (c.extensions.filter (· ≠ e)) inputs) := by
  obtain ⟨s, hc⟩ := resolved_of_resolve h
  obtain ⟨given, -, hundotted, hfilled⟩ := resolveExtensions_eq_ok hc.extensions
  refine ⟨fun hempty => hfilled (hempty ▸ he), head?_of_undotted hundotted e he, ?_, ?_⟩
  · intro hdot t inputs input nodes names ht hinputs hinput hnode hfile
    exact (hfile.wanted he hdot).mem_discover ht hinputs hinput hnode
  · intro hdot fs' inputs
    apply discover_congr
    intro name
    rw [Bool.eq_iff_iff, hasExtension_iff, hasExtension_iff, endsIn_filter hdot]

/-- The extension is given with dots in front and in other letters than the name of the file has. -/
theorem discover_extension_letter_case :
    let name (s : String) := (Path.ofString s).bytes
    let nodes := [(name "sub", FileNode.directory [(name "a.b.xMl", .file [])])]
    let t : FileTree := ⟨.directory nodes, []⟩
    let a : CommandLine.Arguments := { CommandLine.Arguments.default with extensions := ["..XML"] }
    ∃ c files, resolve a ⟨none, none, none, none, none, none⟩ (.ofAnswers [] []) = .ok c ∧
      discover t.fileSystem c.extensions c.paths = .ok files ∧ .ofString "./sub/a.b.xMl" ∈ files := by
  intro name nodes t a
  have hresolve : resolve a ⟨none, none, none, none, none, none⟩ (.ofAnswers [] []) = .ok
      { root := .ofString ".", paths := [.ofString "."], extensions := ["XML"], rootOnly := [], testMode := false
        expectedFailures := [], format := .text, logLevel := "warn", file := none } := by decide +kernel
  have htidy : t.root.Tidy := by
    refine .directory (by decide) (by decide) (List.forall_mem_singleton.2 ?_)
    exact .directory (by decide) (by decide) (List.forall_mem_singleton.2 .file)
  have hnode : t.nodeAt (.ofString ".") = .ok (.directory nodes) := nodeAt_current nodes
  have hcarries : Carries "XML" (name "a.b.xMl") :=
    ⟨name "a.b", name "xMl", by decide, by decide, sameIgnoringCase_iff.1 (by decide)⟩
  obtain ⟨-, -, hfound, -⟩ := discover_extension hresolve List.mem_cons_self
  obtain ⟨files, hfiles, hmem⟩ := hfound (by decide) t [.ofString "."] (.ofString ".") nodes
    [name "sub", name "a.b.xMl"] htidy (List.forall_mem_singleton.2 ⟨_, hnode⟩) List.mem_cons_self hnode
    ⟨⟨[], rfl⟩, by decide, fun n hn => Option.some.inj hn ▸ hcarries⟩
  exact ⟨_, files, hresolve, hfiles, hmem⟩

/-- An extension of two parts is accepted, and a file whose name ends in it is not found. -/
theorem discover_extension_two_parts :
    let name (s : String) := (Path.ofString s).bytes
    let nodes := [(name "page.html.erb", FileNode.file [])]
    let t : FileTree := ⟨.directory nodes, []⟩
    let a : CommandLine.Arguments := { CommandLine.Arguments.default with extensions := ["html.erb"] }
    ∃ c, resolve a ⟨none, none, none, none, none, none⟩ (.ofAnswers [] []) = .ok c ∧ c.extensions = ["html.erb"] ∧
      t.root.Tidy ∧ c.paths = [.ofString "."] ∧ t.nodeAt (.ofString ".") = .ok (.directory nodes) ∧
      CarriedBelow "html.erb" nodes [name "page.html.erb"] ∧ discover t.fileSystem c.extensions c.paths = .ok [] := by
  intro name nodes t a
  have hresolve : resolve a ⟨none, none, none, none, none, none⟩ (.ofAnswers [] []) = .ok
      { root := .ofString ".", paths := [.ofString "."], extensions := ["html.erb"], rootOnly := [], testMode := false
        expectedFailures := [], format := .text, logLevel := "warn", file := none } := by decide +kernel
  have htidy : t.root.Tidy := .directory (by decide) (by decide) (List.forall_mem_singleton.2 .file)
  have hcarries : Carries "html.erb" (name "page.html.erb") :=
    ⟨name "page", name "html.erb", by decide, by decide, sameIgnoringCase_iff.1 (by decide)⟩
  have hext : hasExtension ["html.erb"] (name "page.html.erb") = false := by decide
  refine ⟨_, hresolve, rfl, htidy, rfl, nodeAt_current nodes,
    ⟨⟨[], rfl⟩, by decide, fun n hn => Option.some.inj hn ▸ hcarries⟩, ?_⟩
  have hlook : t.fileSystem.look (.ofString ".") = some (.directory [] [.file (name "page.html.erb")]) := by
    show (t.nodeAt _).toOption.map _ = _
    rw [nodeAt_current]
    rfl
  rw [discover, List.mapM_cons, filesOf, hlook]
  simp [sorted, filesIn, filesAt, hext]

end Config

end TagLint
