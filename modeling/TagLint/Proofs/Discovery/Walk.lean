import TagLint.FileSystem.Tree
import TagLint.Proofs.Discovery.Extension
import TagLint.Proofs.Discovery.Found
import TagLint.Proofs.Path.Order
/-!
# The walk through a tree of files

Of an input that is a directory the walk gives the wanted files below it (`Discovery.Wanted`) and no others, each once
and in the order of their paths, however the directories list what they hold. Inputs that are files are taken as they
are, and one input that is not there leaves no list at all (`Discovery.discover_walks`).
-/

namespace TagLint

open Std

/-! ## Trees -/

/-- Every directory holds a name once, and a name is neither empty nor one or two dots, and has no slash. -/
inductive FileNode.Tidy : FileNode → Prop
  | file {contents : List UInt8} : Tidy (.file contents)
  | link {target : Path} : Tidy (.link target)
  | device : Tidy .device
  | directory {nodes : List (List UInt8 × FileNode)} : (nodes.map Prod.fst).Nodup →
      (∀ e ∈ nodes, (Component.name e.1).IsStep) → (∀ e ∈ nodes, Tidy e.2) → Tidy (.directory nodes)

namespace FileNode

variable {nodes : List (List UInt8 × FileNode)} {node found : FileNode} {name : List UInt8}
  {names : List (List UInt8)}

theorem find?_eq_some_iff (h : (nodes.map Prod.fst).Nodup) : find? name nodes = some node ↔ (name, node) ∈ nodes := by
  induction nodes with
  | nil => simp [find?]
  | cons e nodes ih =>
    obtain ⟨hname, hnodes⟩ := List.nodup_cons.1 h
    rw [find?, List.find?_cons]
    split
    next heq =>
      obtain rfl := beq_iff_eq.1 heq
      have hlater : (e.1, node) ∉ nodes := fun hm => hname (List.mem_map.2 ⟨_, hm, rfl⟩)
      simp [Prod.ext_iff, hlater, eq_comm]
    next hne =>
      have hne : name ≠ e.1 := Ne.symm (by simpa using hne)
      rw [← find?, ih hnodes, List.mem_cons, Prod.ext_iff]
      simp [hne]

theorem descend?_cons : (directory nodes).descend? (name :: names) = some found ↔
    ∃ node, find? name nodes = some node ∧ node.descend? names = some found := by
  rw [descend?, Option.bind_eq_some_iff]

/-- Every node of a tree is as tidy as the tree, and the names on the way to it are steps of a path. -/
theorem Tidy.descend? (h : node.Tidy) (hfound : node.descend? names = some found) :
    found.Tidy ∧ ∀ name ∈ names, (Component.name name).IsStep := by
  induction names generalizing node with
  | nil => exact ⟨Option.some.inj hfound ▸ h, fun name hname => absurd hname List.not_mem_nil⟩
  | cons name names ih =>
    cases h with
    | directory hnodup hsteps htidy =>
      obtain ⟨node, hnode, hrest⟩ := descend?_cons.1 hfound
      have hmem := (find?_eq_some_iff hnodup).1 hnode
      obtain ⟨hfound, hnames⟩ := ih (htidy _ hmem) hrest
      exact ⟨hfound, List.forall_mem_cons.2 ⟨hsteps _ hmem, hnames⟩⟩
    | _ => cases hfound

/-- A walk sees each node of a directory, and nothing else. -/
theorem mem_entries_iff {e : Entry} : e ∈ entries nodes ↔ ∃ n ∈ nodes, n.2.entry n.1 = e := by
  induction nodes with
  | nil => simp [entries]
  | cons n nodes ih =>
    rw [entries, List.mem_cons, ih]
    simp only [List.exists_mem_cons_iff, eq_comm]

@[simp]
theorem entry_name (name : List UInt8) (node : FileNode) : (node.entry name).name = name := by
  cases node <;> rfl

theorem entries_map_name : (entries nodes).map Entry.name = nodes.map Prod.fst := by
  induction nodes with
  | nil => rfl
  | cons n nodes ih => rw [entries, List.map_cons, entry_name, ih, List.map_cons]

theorem file_mem_entries : .file name ∈ entries nodes ↔ ∃ contents, (name, file contents) ∈ nodes := by
  rw [mem_entries_iff]
  constructor
  · rintro ⟨⟨_, node⟩, hmem, he⟩
    cases node with
    | file contents => exact ⟨contents, Entry.file.inj he ▸ hmem⟩
    | _ => cases he
  · rintro ⟨contents, hmem⟩
    exact ⟨_, hmem, rfl⟩

theorem directory_mem_entries {inner : List Entry} : .directory name inner ∈ entries nodes ↔
    ∃ below, (name, directory below) ∈ nodes ∧ inner = entries below := by
  rw [mem_entries_iff]
  constructor
  · rintro ⟨⟨_, node⟩, hmem, he⟩
    cases node with
    | directory below =>
      obtain ⟨rfl, rfl⟩ := Entry.directory.inj he
      exact ⟨below, hmem, rfl⟩
    | _ => cases he
  · rintro ⟨below, hmem, rfl⟩
    exact ⟨_, hmem, rfl⟩

end FileNode

namespace FileTree

/-- Something stands at a path, all links on the way followed. -/
def Has (t : FileTree) (p : Path) : Prop := ∃ node, t.nodeAt p = .ok node

theorem nodeAt_eq_ok_iff {t : FileTree} {p : Path} {node : FileNode} : t.nodeAt p = .ok node ↔
    ∃ place, t.locate p = .ok place ∧ t.root.descend? place.reverse = some node := by
  unfold nodeAt
  cases hplace : t.locate p with
  | error e => exact ⟨nofun, fun ⟨_, h, _⟩ => by cases h⟩
  | ok place =>
    cases hnode : t.root.descend? place.reverse with
    | none => simp [bind, Except.bind, hnode]
    | some found => simp [bind, Except.bind, hnode]

end FileTree

namespace Discovery

variable {extensions : List String} {nodes : List (List UInt8 × FileNode)} {names : List (List UInt8)}

/-- What is to be found below a directory, by the names that lead there: a file, whose name ends in one of the
extensions, and no directory on the way is for the metadata of version control. -/
structure Wanted (extensions : List String) (nodes : List (List UInt8 × FileNode)) (names : List (List UInt8)) :
    Prop where
  isFile : ∃ contents, (FileNode.directory nodes).descend? names = some (.file contents)
  outside : ∀ name ∈ names.dropLast, name ∉ metadataNames
  ending : ∀ name ∈ names.getLast?, EndsIn extensions name

theorem Wanted.of_below {entries : List Entry} (h : Below extensions entries names)
    (ht : (FileNode.directory nodes).Tidy) (he : entries = FileNode.entries nodes) : Wanted extensions nodes names := by
  induction h generalizing nodes with
  | file hmem hext =>
    cases ht with
    | directory hnodup _ _ =>
      obtain ⟨contents, hmem⟩ := FileNode.file_mem_entries.1 (he ▸ hmem)
      refine ⟨⟨contents, FileNode.descend?_cons.2 ⟨_, (FileNode.find?_eq_some_iff hnodup).2 hmem, rfl⟩⟩, by simp, ?_⟩
      simpa using hasExtension_iff.1 hext
  | @directory _ _ name names hmem hname hbelow ih =>
    cases ht with
    | directory hnodup _ htidy =>
      obtain ⟨below, hmem, hinner⟩ := FileNode.directory_mem_entries.1 (he ▸ hmem)
      obtain ⟨⟨contents, hfile⟩, houtside, hending⟩ := ih (htidy _ hmem) hinner
      have hne : names ≠ [] := by
        rintro rfl
        cases hfile
      refine ⟨⟨contents, FileNode.descend?_cons.2 ⟨_, (FileNode.find?_eq_some_iff hnodup).2 hmem, hfile⟩⟩, ?_, ?_⟩
      · rw [List.dropLast_cons_of_ne_nil hne]
        exact List.forall_mem_cons.2 ⟨hname, houtside⟩
      · rw [List.getLast?_cons_of_ne_nil hne]
        exact hending

theorem Wanted.below (h : Wanted extensions nodes names) (ht : (FileNode.directory nodes).Tidy) :
    Below extensions (FileNode.entries nodes) names := by
  obtain ⟨⟨contents, hfile⟩, houtside, hending⟩ := h
  induction names generalizing nodes with
  | nil => cases hfile
  | cons name names ih =>
    cases ht with
    | directory hnodup _ htidy =>
      obtain ⟨node, hnode, hrest⟩ := FileNode.descend?_cons.1 hfile
      have hmem := (FileNode.find?_eq_some_iff hnodup).1 hnode
      by_cases hne : names = []
      · subst hne
        obtain rfl := Option.some.inj hrest
        exact .file (FileNode.file_mem_entries.2 ⟨contents, hmem⟩) (hasExtension_iff.2 (hending name rfl))
      · rw [List.dropLast_cons_of_ne_nil hne, List.forall_mem_cons] at houtside
        rw [List.getLast?_cons_of_ne_nil hne] at hending
        cases node with
        | directory below =>
          exact .directory (FileNode.directory_mem_entries.2 ⟨below, hmem, rfl⟩) houtside.1
            (ih (htidy _ hmem) houtside.2 hending hrest)
        | _ =>
          obtain ⟨next, names, rfl⟩ := List.exists_cons_of_ne_nil hne
          cases hrest

theorem below_entries_iff (ht : (FileNode.directory nodes).Tidy) :
    Below extensions (FileNode.entries nodes) names ↔ Wanted extensions nodes names :=
  ⟨fun h => .of_below h ht rfl, fun h => h.below ht⟩

/-! ## In the order of paths -/

theorem compareLists_append_left {α : Type} {cmp : α → α → Ordering} [ReflCmp cmp] (common s t : List α) :
    compareLists cmp (common ++ s) (common ++ t) = compareLists cmp s t := by
  induction common with
  | nil => rfl
  | cons a common ih =>
    show (cmp a a).then (compareLists cmp (common ++ s) (common ++ t)) = _
    have hself : cmp a a = .eq := ReflCmp.compare_self
    rw [hself, ih]
    rfl

/-- The first names that differ put the paths of two files in order. -/
theorem compareTo_extend {name name' : List UInt8} {names' : List (List UInt8)} (directory : Path)
    (hname : ∀ n ∈ name :: names, (Component.name n).IsStep) (hname' : ∀ n ∈ name' :: names', (Component.name n).IsStep)
    (h : compareBytes name name' = .lt) :
    (directory.extend (name :: names)).compareTo (directory.extend (name' :: names')) = .lt := by
  have hcomponent : Component.compareTo (.name name) (.name name') = .lt := h
  rw [Path.compareTo, Path.components_extend hname, Path.components_extend hname', compareLists_append_left,
    List.map_cons, List.map_cons, compareLists, hcomponent]
  rfl

/-- What is found at an entry lies at its name or further on. -/
theorem head?_of_below {e : Entry} (h : Below extensions [e] names) : names.head? = some e.name := by
  cases h with
  | file hmem => rw [← List.mem_singleton.1 hmem]; rfl
  | directory hmem => rw [← List.mem_singleton.1 hmem]; rfl

/-- The files at one entry come before those at a sibling with a greater name. -/
theorem compareTo_of_filesAt {e e' : Entry} {directory p q : Path}
    (hstep : ∀ names, Below extensions [e] names → ∀ n ∈ names, (Component.name n).IsStep)
    (hstep' : ∀ names, Below extensions [e'] names → ∀ n ∈ names, (Component.name n).IsStep)
    (h : compareBytes e.name e'.name = .lt) (hp : p ∈ filesAt extensions directory e)
    (hq : q ∈ filesAt extensions directory e') : p.compareTo q = .lt := by
  obtain ⟨names, hbelow, rfl⟩ := (mem_filesAt_iff _ _ _).1 hp
  obtain ⟨names', hbelow', rfl⟩ := (mem_filesAt_iff _ _ _).1 hq
  obtain ⟨names, rfl⟩ := List.head?_eq_some_iff.1 (head?_of_below hbelow)
  obtain ⟨names', rfl⟩ := List.head?_eq_some_iff.1 (head?_of_below hbelow')
  exact compareTo_extend directory (hstep _ hbelow) (hstep' _ hbelow') h

theorem filesIn_eq_flatMap (directory : Path) (entries : List Entry) :
    filesIn extensions directory entries = entries.flatMap (filesAt extensions directory) := by
  induction entries with
  | nil => rw [filesIn]; rfl
  | cons e entries ih => rw [filesIn, ih, List.flatMap_cons]

theorem sorted_name (e : Entry) : (sorted e).name = e.name := by
  cases e <;> simp [sorted, Entry.name]

/-- Siblings whose names differ stand in strict order. -/
theorem pairwise_inOrder {entries : List Entry} (h : (entries.map Entry.name).Nodup) :
    (inOrder entries).Pairwise fun a b => compareBytes a.name b.name = .lt := by
  have : TransCmp fun a b : Entry => compareBytes a.name b.name := transCmp_on Entry.name
  have hle : (inOrder entries).Pairwise fun a b => (compareBytes a.name b.name).isLE := pairwise_mergeSort_isLE _
  have hne : (inOrder entries).Pairwise fun a b => a.name ≠ b.name := by
    have hnames : (entries.map sorted).map Entry.name = entries.map Entry.name := by
      rw [List.map_map]
      exact List.map_congr_left fun e _ => sorted_name e
    exact List.pairwise_map.1 (((List.mergeSort_perm _ _).map Entry.name).nodup_iff.2 (hnames ▸ h))
  refine hle.imp₂ (fun a b hle hne => ?_) hne
  cases hc : compareBytes a.name b.name with
  | lt => rfl
  | eq => exact absurd (LawfulEqCmp.eq_of_compare hc) hne
  | gt => rw [hc] at hle; cases hle

theorem Wanted.isStep (h : Wanted extensions nodes names) (ht : (FileNode.directory nodes).Tidy) :
    ∀ name ∈ names, (Component.name name).IsStep := by
  obtain ⟨contents, hfile⟩ := h.isFile
  exact (ht.descend? hfile).2

/-- What is found at an entry of a tidy directory lies at steps of a path. -/
theorem isStep_of_below {e : Entry} (ht : (FileNode.directory nodes).Tidy)
    (he : e ∈ inOrder (FileNode.entries nodes)) (h : Below extensions [e] names) :
    ∀ name ∈ names, (Component.name name).IsStep := by
  have hbelow : Below extensions (inOrder (FileNode.entries nodes)) names :=
    h.of_subset fun e' hm => List.mem_singleton.1 hm ▸ he
  exact ((below_entries_iff ht).1 (below_inOrder.1 hbelow)).isStep ht

/-- The files below a tidy directory are found in the order of their paths. -/
theorem pairwise_filesIn (ht : (FileNode.directory nodes).Tidy) (extensions : List String) (directory : Path) :
    (filesIn extensions directory (inOrder (FileNode.entries nodes))).Pairwise fun p q => p.compareTo q = .lt := by
  have hroot := ht
  generalize hnode : FileNode.directory nodes = node at ht
  induction ht generalizing nodes directory with
  | @directory _ hnodup hsteps htidy ih =>
    obtain rfl := FileNode.directory.inj hnode
    rw [filesIn_eq_flatMap, List.pairwise_flatMap]
    constructor
    · intro e' he'
      obtain ⟨e, he, rfl⟩ := mem_inOrder.1 he'
      obtain ⟨⟨name, node⟩, hmem, rfl⟩ := FileNode.mem_entries_iff.1 he
      cases node with
      | file contents =>
        rw [FileNode.entry, sorted, filesAt]
        split
        · exact List.pairwise_singleton _ _
        · exact .nil
      | directory below =>
        rw [FileNode.entry, sorted_directory, filesAt]
        split
        · exact .nil
        · exact ih _ hmem _ (htidy _ hmem) rfl
      | _ =>
        rw [FileNode.entry, sorted, filesAt]
        exact .nil
    · rw [← FileNode.entries_map_name] at hnodup
      refine (pairwise_inOrder hnodup).imp_of_mem fun ha hb hab p hp q hq => ?_
      exact compareTo_of_filesAt (fun _ => isStep_of_below hroot ha) (fun _ => isStep_of_below hroot hb) hab hp hq
  | _ => cases hnode

/-! ## Inputs -/

/-- The list that is found for an input. -/
inductive FoundAt (t : FileTree) (extensions : List String) (input : Path) : List Path → Prop
  | file {contents : List UInt8} : t.nodeAt input = .ok (.file contents) → FoundAt t extensions input [input]
  | directory {nodes : List (List UInt8 × FileNode)} {files : List Path} :
    t.nodeAt input = .ok (.directory nodes) →
    (∀ file, file ∈ files ↔ ∃ names, Wanted extensions nodes names ∧ file = input.extend names) →
    files.Pairwise (fun p q => p.compareTo q = .lt) → files.Nodup → FoundAt t extensions input files
  | other {node : FileNode} : t.nodeAt input = .ok node → node.entry [] = .other [] → FoundAt t extensions input []

variable {t : FileTree} {inputs : List Path} {input : Path}

theorem nodup_of_increasing {files : List Path} (h : files.Pairwise fun p q => p.compareTo q = .lt) : files.Nodup := by
  refine h.imp fun {p q} hlt heq => ?_
  have hself : q.compareTo q = .eq := ReflCmp.compare_self
  rw [heq, hself] at hlt
  cases hlt

theorem filesOf_there (ht : t.root.Tidy) (extensions : List String) (h : t.Has input) :
    ∃ files, filesOf t.fileSystem extensions input = .ok files ∧ FoundAt t extensions input files := by
  obtain ⟨node, hnode⟩ := h
  have hlook : t.fileSystem.look input = some (node.entry []) := by
    show (t.nodeAt input).toOption.map _ = _
    rw [hnode]
    rfl
  rw [filesOf, hlook, Option.map_some]
  cases node with
  | file contents =>
    rw [FileNode.entry, sorted]
    exact ⟨_, rfl, .file hnode⟩
  | directory nodes =>
    rw [FileNode.entry, sorted_directory]
    obtain ⟨place, -, hplace⟩ := FileTree.nodeAt_eq_ok_iff.1 hnode
    have htidy := (ht.descend? hplace).1
    have hlt := pairwise_filesIn htidy extensions input
    refine ⟨_, rfl, .directory hnode (fun file => ?_) hlt (nodup_of_increasing hlt)⟩
    rw [mem_filesIn_iff]
    simp only [below_inOrder, below_entries_iff htidy]
  | _ =>
    rw [FileNode.entry, sorted]
    exact ⟨_, rfl, .other hnode rfl⟩

theorem filesOf_missing (h : ¬ t.Has input) :
    filesOf t.fileSystem extensions input = .error (.missingInput input) := by
  have hlook : t.fileSystem.look input = none := by
    show (t.nodeAt input).toOption.map _ = _
    cases hnode : t.nodeAt input with
    | error e => rfl
    | ok node => exact absurd ⟨node, hnode⟩ h
  rw [filesOf, hlook]
  rfl

/-- The lists of inputs that are all there, one behind the other. -/
theorem discover_there (ht : t.root.Tidy) (extensions : List String) (h : ∀ input ∈ inputs, t.Has input) :
    ∃ lists, List.Forall₂ (FoundAt t extensions) inputs lists ∧
      inputs.mapM (filesOf t.fileSystem extensions) = .ok lists := by
  induction inputs with
  | nil => exact ⟨[], .nil, rfl⟩
  | cons input inputs ih =>
    obtain ⟨hinput, hinputs⟩ := List.forall_mem_cons.1 h
    obtain ⟨files, hfiles, hfound⟩ := filesOf_there ht extensions hinput
    obtain ⟨lists, hlists, hrest⟩ := ih hinputs
    refine ⟨files :: lists, .cons hfound hlists, ?_⟩
    rw [List.mapM_cons, hfiles, hrest]
    rfl

/-- The first input that is not there is the one that is told. -/
theorem discover_missing {before after : List Path} (ht : t.root.Tidy) (hbefore : ∀ p ∈ before, t.Has p)
    (h : ¬ t.Has input) :
    discover t.fileSystem extensions (before ++ input :: after) = .error (.missingInput input) := by
  obtain ⟨lists, -, hlists⟩ := discover_there ht extensions hbefore
  rw [discover, List.mapM_append, hlists, List.mapM_cons, filesOf_missing h]
  rfl

/-- What is found in a tidy tree. Inputs that are all there give their lists one after the other: of a file the input
itself, of a directory the paths of the wanted files below it, in strictly increasing order. If one is not there, the
first such is told and there is no list. -/
theorem discover_walks (ht : t.root.Tidy) (extensions : List String) (inputs : List Path) :
    ((∀ input ∈ inputs, t.Has input) → ∃ lists, List.Forall₂ (FoundAt t extensions) inputs lists ∧
      discover t.fileSystem extensions inputs = .ok lists.flatten) ∧
    ((∃ input ∈ inputs, ¬ t.Has input) → ∃ before input after, inputs = before ++ input :: after ∧
      (∀ p ∈ before, t.Has p) ∧ ¬ t.Has input ∧
      discover t.fileSystem extensions inputs = .error (.missingInput input)) := by
  classical
  constructor
  · intro h
    obtain ⟨lists, hlists, hmap⟩ := discover_there ht extensions h
    refine ⟨lists, hlists, ?_⟩
    rw [discover, hmap]
    rfl
  · rintro ⟨missing, hmem, hmissing⟩
    have hfirst : (inputs.find? fun p => decide (¬ t.Has p)).isSome :=
      List.find?_isSome.2 ⟨missing, hmem, by simpa using hmissing⟩
    obtain ⟨input, hinput⟩ := Option.isSome_iff_exists.1 hfirst
    obtain ⟨hgone, before, after, rfl, hbefore⟩ := List.find?_eq_some_iff_append.1 hinput
    have hbefore : ∀ p ∈ before, t.Has p := fun p hp => by simpa using hbefore p hp
    have hgone : ¬ t.Has input := by simpa using hgone
    exact ⟨before, input, after, rfl, hbefore, hgone, discover_missing ht hbefore hgone⟩

/-- The input is a link to a directory that lists its entries out of order. -/
theorem discover_walks_link :
    let name (s : String) := (Path.ofString s).bytes
    let site := [(name "a-b.html", FileNode.file []), (name "a", .directory [(name "b.HTML", .file [])]),
      (name ".git", .directory [(name "c.html", .file [])]), (name "d.html", .link (.ofString "a/b.HTML"))]
    let t : FileTree := ⟨.directory [(name "site", .directory site), (name "s", .link (.ofString "site"))], []⟩
    t.root.Tidy ∧ ∃ files, discover t.fileSystem ["html"] [.ofString "/s"] = .ok files ∧
      .ofString "/s/a-b.html" ∈ files ∧ .ofString "/s/a/b.HTML" ∈ files ∧ .ofString "/s/.git/c.html" ∉ files ∧
      discover t.fileSystem ["html"] [.ofString "/s", .ofString "/t"] = .error (.missingInput (.ofString "/t")) := by
  intro name site t
  have hsite : (FileNode.directory site).Tidy := by
    refine .directory (by decide) (by decide) ?_
    simp only [site, List.forall_mem_cons, List.not_mem_nil, false_implies, implies_true, and_true]
    refine ⟨.file, .directory (by decide) (by decide) ?_, .directory (by decide) (by decide) ?_, .link⟩
    · exact List.forall_mem_singleton.2 .file
    · exact List.forall_mem_singleton.2 .file
  have htidy : t.root.Tidy :=
    .directory (by decide) (by decide) (List.forall_mem_cons.2 ⟨hsite, List.forall_mem_singleton.2 .link⟩)
  have hlocate : t.locate (.ofString "/s") = .ok [name "site"] ∧ t.locate (.ofString "/t") = .ok [name "t"] := by
    have hs : (Path.ofString "/s").pieces = [[], [0x73]] := by decide
    have ht : (Path.ofString "/t").pieces = [[], [0x74]] := by decide
    have htarget : (Path.ofString "site").pieces = [[0x73, 0x69, 0x74, 0x65]] := by decide
    have hnames : name "s" = [0x73] ∧ name "t" = [0x74] ∧ name "site" = [0x73, 0x69, 0x74, 0x65] := by decide
    have hrelative : (Path.ofString "site").isAbsolute = false := by decide
    have habsolute : (Path.ofString "/s").isAbsolute = true ∧ (Path.ofString "/t").isAbsolute = true := by decide
    rw [FileTree.locate, FileTree.locate, if_neg (by decide), if_neg (by decide), if_neg (by decide),
      if_neg (by decide), if_neg (by decide), if_neg (by decide), hs, ht]
    simp [FileTree.startOf, FileTree.follow, FileNode.descend?, FileNode.find?, FileTree.maxLinks, FileTree.maxName,
      Component.bytes, t, hnames, htarget, hrelative, habsolute]
  have hs : t.nodeAt (.ofString "/s") = .ok (.directory site) :=
    FileTree.nodeAt_eq_ok_iff.2 ⟨_, hlocate.1, rfl⟩
  have hgone : ¬ t.Has (.ofString "/t") := by
    rintro ⟨node, h⟩
    obtain ⟨place, hplace, hnode⟩ := FileTree.nodeAt_eq_ok_iff.1 h
    obtain rfl := Except.ok.inj (hlocate.2.symm.trans hplace)
    cases hnode
  have hmissing : discover t.fileSystem ["html"] [.ofString "/s", .ofString "/t"] =
      .error (.missingInput (.ofString "/t")) := by
    obtain ⟨before, input, after, hinputs, -, hinput, herror⟩ :=
      (discover_walks htidy ["html"] [.ofString "/s", .ofString "/t"]).2 ⟨_, by simp, hgone⟩
    have hmem : input ∈ [Path.ofString "/s", .ofString "/t"] := by simp [hinputs]
    rcases List.mem_pair.1 hmem with rfl | rfl
    · exact absurd ⟨_, hs⟩ hinput
    · exact herror
  obtain ⟨lists, hlists, hfiles⟩ :=
    (discover_walks htidy ["html"] [.ofString "/s"]).1 (List.forall_mem_singleton.2 ⟨_, hs⟩)
  cases hlists with
  | cons hfound hnil =>
    cases hnil
    cases hfound with
    | file hfile => cases hs.symm.trans hfile
    | other hnode hother => cases hs.symm.trans hnode; cases hother
    | directory hnode hmem _ _ =>
      cases hs.symm.trans hnode
      have hwanted (names : List (List UInt8)) (hfile : (FileNode.directory site).descend? names = some (.file []))
          (houtside : ∀ n ∈ names.dropLast, n ∉ metadataNames)
          (hending : ∀ n ∈ names.getLast?, hasExtension ["html"] n = true) : Wanted ["html"] site names :=
        ⟨⟨_, hfile⟩, houtside, fun n hn => hasExtension_iff.1 (hending n hn)⟩
      refine ⟨htidy, _, hfiles, ?_, ?_, ?_, hmissing⟩
      · rw [List.flatten_singleton, hmem]
        exact ⟨[name "a-b.html"], hwanted _ rfl (by decide) (by decide), by decide⟩
      · rw [List.flatten_singleton, hmem]
        exact ⟨[name "a", name "b.HTML"], hwanted _ rfl (by decide) (by decide), by decide⟩
      · rw [List.flatten_singleton, hmem]
        rintro ⟨names, hfile, heq⟩
        have hgit : Path.ofString "/s/.git/c.html" = (Path.ofString "/s").extend [name ".git", name "c.html"] := by decide
        obtain rfl := Path.extend_inj (hfile.isStep hsite) (by decide) (heq.symm.trans hgit)
        exact hfile.outside (name ".git") (by decide) (by decide)

end Discovery

end TagLint
