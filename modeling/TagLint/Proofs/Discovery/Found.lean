import TagLint.Discovery
import TagLint.Proofs.Path.Joining
/-!
# The files that are found

`Discovery.Below` says which files are wanted below a directory, by the names on the way to them, and
`Discovery.Finds` which an input stands for. These and no others are found (`Discovery.mem_discover_iff`), each at the
path that leads to the input and on through the names.
-/

namespace TagLint

/-! ## Names in directories -/

/-- What is in a directory, at any depth. -/
inductive Entry.Inside : List Entry → Entry → Prop
  | here {entries : List Entry} {e : Entry} : e ∈ entries → Inside entries e
  | deeper {entries inner : List Entry} {name : List UInt8} {e : Entry} :
    .directory name inner ∈ entries → Inside inner e → Inside entries e

/-- Directories list their entries by name: a name is neither empty nor one or two dots, and has no slash. -/
def FileSystem.Named (fs : FileSystem) : Prop :=
  ∀ input name entries, fs.look input = some (.directory name entries) →
    ∀ e, Entry.Inside entries e → (Component.name e.name).IsStep

namespace Discovery

variable {extensions : List String} {entries entries' : List Entry} {names : List (List UInt8)}

/-- A file with one of the extensions below a directory with these entries, by the names that lead to it, none of
which is that of a directory for the metadata of version control. -/
inductive Below (extensions : List String) : List Entry → List (List UInt8) → Prop
  | file {entries : List Entry} {name : List UInt8} :
    .file name ∈ entries → hasExtension extensions name = true → Below extensions entries [name]
  | directory {entries inner : List Entry} {name : List UInt8} {names : List (List UInt8)} :
    .directory name inner ∈ entries → name ∉ metadataNames → Below extensions inner names →
      Below extensions entries (name :: names)

/-- A file that an input stands for: the input itself, or a file below it. -/
inductive Finds (fs : FileSystem) (extensions : List String) (input : Path) : List (List UInt8) → Prop
  | itself {name : List UInt8} : fs.look input = some (.file name) → Finds fs extensions input []
  | below {name : List UInt8} {entries : List Entry} {names : List (List UInt8)} :
    fs.look input = some (.directory name entries) → Below extensions entries names →
      Finds fs extensions input names

theorem Below.isStep (h : Below extensions entries names) (hentries : ∀ e, Entry.Inside entries e →
    (Component.name e.name).IsStep) : ∀ name ∈ names, (Component.name name).IsStep := by
  induction h with
  | file hmem =>
    intro name hname
    obtain rfl := List.mem_singleton.1 hname
    exact hentries _ (.here hmem)
  | directory hmem _ _ ih =>
    intro name hname
    rcases List.mem_cons.1 hname with rfl | hname
    · exact hentries _ (.here hmem)
    · exact ih (fun e he => hentries e (.deeper hmem he)) name hname

theorem Finds.isStep {fs : FileSystem} {input : Path} (hfs : fs.Named) (h : Finds fs extensions input names) :
    ∀ name ∈ names, (Component.name name).IsStep := by
  cases h with
  | itself => exact fun name hname => absurd hname List.not_mem_nil
  | below hlook hbelow => exact hbelow.isStep (hfs input _ _ hlook)

theorem Below.of_subset (h : Below extensions entries names) (hs : entries ⊆ entries') :
    Below extensions entries' names := by
  cases h with
  | file hmem hext => exact .file (hs hmem) hext
  | directory hmem hname hinner => exact .directory (hs hmem) hname hinner

/-! ## Siblings in order -/

/-- The entries of a directory and of those below it in the order of their names. -/
def inOrder (entries : List Entry) : List Entry :=
  (entries.map sorted).mergeSort fun a b => (compareBytes a.name b.name).isLE

theorem sorted_directory (name : List UInt8) (entries : List Entry) :
    sorted (.directory name entries) = .directory name (inOrder entries) := by
  rw [sorted, inOrder]

theorem mem_inOrder {e : Entry} : e ∈ inOrder entries ↔ ∃ e' ∈ entries, sorted e' = e := by
  rw [inOrder, List.mem_mergeSort, List.mem_map]

theorem file_mem_inOrder {name : List UInt8} : .file name ∈ inOrder entries ↔ .file name ∈ entries := by
  rw [mem_inOrder]
  constructor
  · rintro ⟨e, he, hs⟩
    cases e with
    | file => rwa [← hs, sorted]
    | other => rw [sorted] at hs; cases hs
    | directory => rw [sorted] at hs; cases hs
  · exact fun h => ⟨_, h, by rw [sorted]⟩

theorem directory_mem_inOrder {name : List UInt8} {inner : List Entry} :
    .directory name inner ∈ inOrder entries ↔ ∃ inner', .directory name inner' ∈ entries ∧ inner = inOrder inner' := by
  rw [mem_inOrder]
  constructor
  · rintro ⟨e, he, hs⟩
    cases e with
    | file => rw [sorted] at hs; cases hs
    | other => rw [sorted] at hs; cases hs
    | directory name inner' =>
      rw [sorted_directory] at hs
      obtain ⟨rfl, rfl⟩ := Entry.directory.inj hs
      exact ⟨inner', he, rfl⟩
  · rintro ⟨inner', h, rfl⟩
    exact ⟨_, h, sorted_directory _ _⟩

/-- The order of entries is no matter for which files there are. -/
theorem below_inOrder : Below extensions (inOrder entries) names ↔ Below extensions entries names := by
  constructor
  · intro h
    generalize hs : inOrder entries = sortedEntries at h
    induction h generalizing entries with
    | file hmem hext => exact .file (file_mem_inOrder.1 (hs ▸ hmem)) hext
    | directory hmem hname _ ih =>
      obtain ⟨inner, hmem, hinner⟩ := directory_mem_inOrder.1 (hs ▸ hmem)
      exact .directory hmem hname (ih hinner.symm)
  · intro h
    induction h with
    | file hmem hext => exact .file (file_mem_inOrder.2 hmem) hext
    | directory hmem hname _ ih => exact .directory (directory_mem_inOrder.2 ⟨_, hmem, rfl⟩) hname ih

/-! ## The walk -/

theorem not_below_nil : ¬ Below extensions [] names := by
  intro h
  cases h with
  | file hmem => cases hmem
  | directory hmem => cases hmem

theorem below_cons (e : Entry) (entries : List Entry) :
    Below extensions (e :: entries) names ↔ Below extensions [e] names ∨ Below extensions entries names := by
  constructor
  · intro h
    cases h with
    | file hmem hext =>
      rcases List.mem_cons.1 hmem with rfl | hmem
      · exact .inl (.file List.mem_cons_self hext)
      · exact .inr (.file hmem hext)
    | directory hmem hname hinner =>
      rcases List.mem_cons.1 hmem with rfl | hmem
      · exact .inl (.directory List.mem_cons_self hname hinner)
      · exact .inr (.directory hmem hname hinner)
  · rintro (h | h)
    · exact h.of_subset fun e' he => List.mem_singleton.1 he ▸ List.mem_cons_self
    · exact h.of_subset (List.subset_cons_self _ _)

theorem below_file {name : List UInt8} :
    Below extensions [.file name] names ↔ hasExtension extensions name = true ∧ names = [name] := by
  constructor
  · intro h
    cases h with
    | file hmem hext => obtain ⟨rfl⟩ := List.mem_singleton.1 hmem; exact ⟨hext, rfl⟩
    | directory hmem => cases List.mem_singleton.1 hmem
  · rintro ⟨hext, rfl⟩
    exact .file List.mem_cons_self hext

theorem not_below_other {name : List UInt8} : ¬ Below extensions [.other name] names := by
  intro h
  cases h with
  | file hmem => cases List.mem_singleton.1 hmem
  | directory hmem => cases List.mem_singleton.1 hmem

theorem below_directory {name : List UInt8} {inner : List Entry} : Below extensions [.directory name inner] names ↔
    name ∉ metadataNames ∧ ∃ names', Below extensions inner names' ∧ names = name :: names' := by
  constructor
  · intro h
    cases h with
    | file hmem => cases List.mem_singleton.1 hmem
    | directory hmem hname hinner =>
      obtain ⟨rfl, rfl⟩ := Entry.directory.inj (List.mem_singleton.1 hmem)
      exact ⟨hname, _, hinner, rfl⟩
  · rintro ⟨hname, names', hinner, rfl⟩
    exact .directory List.mem_cons_self hname hinner

mutual

theorem mem_filesAt_iff (file directory : Path) : (e : Entry) → (file ∈ filesAt extensions directory e ↔
    ∃ names, Below extensions [e] names ∧ file = directory.extend names)
  | .file name => by
    rw [filesAt]
    split
    next hext => simp [below_file, hext, Path.extend]
    next hext => simp [below_file, hext]
  | .other name => by
    rw [filesAt]
    simp [not_below_other]
  | .directory name entries => by
    rw [filesAt]
    split
    next hmeta => simp [below_directory, hmeta]
    next hmeta =>
      rw [mem_filesIn_iff file (directory.join ⟨name⟩) entries]
      simp only [below_directory, hmeta, not_false_eq_true, true_and]
      constructor
      · rintro ⟨names, h, rfl⟩
        exact ⟨name :: names, ⟨names, h, rfl⟩, rfl⟩
      · rintro ⟨_, ⟨names, h, rfl⟩, rfl⟩
        exact ⟨names, h, rfl⟩

/-- The walk finds the wanted files below a directory. -/
theorem mem_filesIn_iff (file directory : Path) : (entries : List Entry) →
    (file ∈ filesIn extensions directory entries ↔
      ∃ names, Below extensions entries names ∧ file = directory.extend names)
  | [] => by
    rw [filesIn]
    simp [not_below_nil]
  | e :: entries => by
    rw [filesIn, List.mem_append, mem_filesAt_iff file directory e, mem_filesIn_iff file directory entries]
    simp only [below_cons e entries, or_and_right, exists_or]

end

/-! ## Inputs -/

variable {fs : FileSystem} {inputs files : List Path} {input : Path}

theorem Finds.of_look {e : Entry} (h : Finds fs extensions input names) (hlook : fs.look input = some e) :
    (∃ name, e = .file name ∧ names = []) ∨
      ∃ name entries, e = .directory name entries ∧ Below extensions entries names := by
  cases h with
  | itself hfile => exact .inl ⟨_, Option.some.inj (hlook.symm.trans hfile), rfl⟩
  | below hdirectory hbelow => exact .inr ⟨_, _, Option.some.inj (hlook.symm.trans hdirectory), hbelow⟩

theorem mem_filesOf_iff (h : filesOf fs extensions input = .ok files) (file : Path) :
    file ∈ files ↔ ∃ names, Finds fs extensions input names ∧ file = input.extend names := by
  unfold filesOf at h
  cases hlook : fs.look input with
  | none => rw [hlook] at h; cases h
  | some e =>
    rw [hlook, Option.map_some] at h
    cases e with
    | file name =>
      rw [sorted] at h
      obtain rfl := Except.ok.inj h
      rw [List.mem_singleton]
      constructor
      · rintro rfl
        exact ⟨[], .itself hlook, rfl⟩
      · rintro ⟨names, hfinds, rfl⟩
        rcases hfinds.of_look hlook with ⟨_, -, rfl⟩ | ⟨_, _, he, -⟩
        · rfl
        · cases he
    | other name =>
      rw [sorted] at h
      obtain rfl := Except.ok.inj h
      refine ⟨fun hmem => absurd hmem List.not_mem_nil, ?_⟩
      rintro ⟨names, hfinds, -⟩
      rcases hfinds.of_look hlook with ⟨_, he, -⟩ | ⟨_, _, he, -⟩ <;> cases he
    | directory name entries =>
      rw [sorted_directory] at h
      obtain rfl := Except.ok.inj h
      simp only [mem_filesIn_iff, below_inOrder]
      constructor
      · rintro ⟨names, hbelow, rfl⟩
        exact ⟨names, .below hlook hbelow, rfl⟩
      · rintro ⟨names, hfinds, rfl⟩
        rcases hfinds.of_look hlook with ⟨_, he, -⟩ | ⟨_, _, he, hbelow⟩
        · cases he
        · obtain ⟨-, rfl⟩ := Entry.directory.inj he
          exact ⟨names, hbelow, rfl⟩

/-- What is found for inputs is what is found for each of them. -/
theorem mem_discover_iff (h : discover fs extensions inputs = .ok files) (file : Path) :
    file ∈ files ↔ ∃ input ∈ inputs, ∃ names, Finds fs extensions input names ∧ file = input.extend names := by
  induction inputs generalizing files with
  | nil =>
    obtain rfl := Except.ok.inj h
    simp
  | cons input inputs ih =>
    rw [discover, List.mapM_cons] at h
    cases hone : filesOf fs extensions input with
    | error e => rw [hone] at h; cases h
    | ok found =>
      cases hrest : inputs.mapM (filesOf fs extensions) with
      | error e => rw [hone, hrest] at h; cases h
      | ok lists =>
        rw [hone, hrest] at h
        obtain rfl := Except.ok.inj h
        have hlists : discover fs extensions inputs = .ok lists.flatten := by rw [discover, hrest]; rfl
        show file ∈ found ++ lists.flatten ↔ _
        rw [List.mem_append, mem_filesOf_iff hone, ih hlists]
        simp only [List.mem_cons, exists_eq_or_imp]

end Discovery

end TagLint
