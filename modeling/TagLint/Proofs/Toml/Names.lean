import TagLint.Config.File
import TagLint.Proofs.List.Steps
import TagLint.Proofs.Markup.Names
/-!
# Names in a configuration file

A name stands between quotation marks as it is, none of its characters escaped. So a file can list any names of
elements, and they are read from it unchanged (`Config.FileSettings.parse_rootOnlyLine`).
-/

namespace TagLint

namespace Toml

variable {name rest : List Char} {names : List (List Char)} {fuel : Nat}

/-- A name as a string. -/
def quoted (name : List Char) : List Char := '"' :: (name ++ ['"'])

theorem isPrintable_of_isNameChar {c : Char} (h : isNameChar c) : isPrintable c = true := by
  by_cases hc : c.toNat < 0x80
  · have hall : (List.range 0x80).all fun n => !isNameChar (Char.ofNat n) || isPrintable (Char.ofNat n) := by decide
    have hthis := List.all_eq_true.1 hall _ (List.mem_range.2 hc)
    rw [Char.ofNat_toNat, h] at hthis
    exact hthis
  · have hspace : ' ' ≤ c := by
      rw [Char.le_def, UInt32.le_iff_toNat_le]
      exact Nat.le_trans (by decide) (Nat.le_of_not_lt hc)
    have hdelete : c ≠ '\x7F' := by
      rintro rfl
      exact hc (by decide)
    simp [isPrintable, hspace, hdelete]

/-- No character of a name is escaped, and none ends a string. -/
theorem readQuotedFrom_of_isNameChar (hname : ∀ c ∈ name, isNameChar c) (hfuel : name.length < fuel)
    (read : List Char) :
    readQuotedFrom ⟨'"', true, false⟩ fuel read (name ++ '"' :: rest) = some (.ofList (read.reverse ++ name), rest) := by
  induction name generalizing fuel read with
  | nil =>
    obtain ⟨fuel, rfl⟩ := Nat.exists_eq_add_one_of_ne_zero (Nat.ne_of_gt hfuel)
    simp [readQuotedFrom]
  | cons c name ih =>
    obtain ⟨fuel, rfl⟩ := Nat.exists_eq_add_one_of_ne_zero (Nat.ne_of_gt (Nat.zero_lt_of_lt hfuel))
    obtain ⟨hc, hname⟩ := List.forall_mem_cons.1 hname
    have hne {d : Char} (hd : isNameChar d = false) : c ≠ d := by
      rintro rfl
      rw [hd] at hc
      cases hc
    rw [List.cons_append]
    unfold readQuotedFrom
    dsimp only
    rw [if_neg (hne (by decide)), if_neg fun h => hne (by decide) h.1, if_pos (isPrintable_of_isNameChar hc),
      ih hname (Nat.lt_of_succ_lt_succ hfuel), List.reverse_cons, List.append_assoc, List.singleton_append]

theorem readValue_quoted (hname : IsName name) (hfuel : name.length < fuel) (depth : Nat) (rest : List Char) :
    readValue fuel depth (quoted name ++ rest) = some (.string (.ofList name), rest) := by
  have hall := hname.all_isNameChar
  obtain ⟨c, more, rfl, hc, -⟩ := hname
  have hmark : c ≠ '"' := by
    rintro rfl
    revert hc
    decide
  have hstring : readString fuel (quoted (c :: more) ++ rest) = readLineString fuel (quoted (c :: more) ++ rest) := by
    unfold readString
    split
    next text he => exact absurd (List.cons.inj (List.cons.inj he).2).1 hmark
    next text he => cases he
    next => rfl
  have hread : readSingle fuel (quoted (c :: more) ++ rest) = some (.string (.ofList (c :: more)), rest) := by
    show (readString fuel (quoted (c :: more) ++ rest)).map _ = _
    rw [hstring]
    show (readQuotedFrom ⟨'"', true, false⟩ fuel [] (((c :: more) ++ ['"']) ++ rest)).map _ = _
    rw [List.append_assoc, List.singleton_append, readQuotedFrom_of_isNameChar hall hfuel]
    rfl
  cases depth with
  | zero => exact hread
  | succ depth => exact hread

/-- Behind the comma after a name the next item is read. -/
theorem readItems_comma (hname : IsName name) (hfuel : name.length < fuel) (bound depth : Nat) (before : List Value) :
    readItems (readValue fuel depth) (bound + 1) before (quoted name ++ ',' :: rest) =
      readItems (readValue fuel depth) bound (.string (.ofList name) :: before) rest := by
  have hquote : skipBlank (quoted name ++ ',' :: rest) = quoted name ++ ',' :: rest := rfl
  have hcomma : skipBlank (',' :: rest) = ',' :: rest := rfl
  rw [readItems, hquote]
  split
  next he => cases he
  next => simp only [readValue_quoted hname hfuel, hcomma]

/-- The bracket after a name ends the items. -/
theorem readItems_bracket (hname : IsName name) (hfuel : name.length < fuel) (bound depth : Nat) (before : List Value) :
    readItems (readValue fuel depth) (bound + 1) before (quoted name ++ ']' :: rest) =
      some (before.reverse ++ [.string (.ofList name)], rest) := by
  have hquote : skipBlank (quoted name ++ ']' :: rest) = quoted name ++ ']' :: rest := rfl
  have hbracket : skipBlank (']' :: rest) = ']' :: rest := rfl
  rw [readItems, hquote]
  split
  next he => cases he
  next => simp only [readValue_quoted hname hfuel, hbracket, List.reverse_cons]

/-- Names between brackets, with commas between them. -/
theorem readItems_quoted (hnames : ∀ name ∈ names, IsName name ∧ name.length < fuel) {bound : Nat}
    (hbound : names.length < bound) (depth : Nat) (before : List Value) (rest : List Char) :
    readItems (readValue fuel depth) bound before ([','].intercalate (names.map quoted) ++ ']' :: rest) =
      some (before.reverse ++ names.map fun name => .string (.ofList name), rest) := by
  induction names generalizing bound before with
  | nil =>
    obtain ⟨bound, rfl⟩ := Nat.exists_eq_add_one_of_ne_zero (Nat.ne_of_gt hbound)
    rw [List.map_nil, List.map_nil, List.append_nil]
    rfl
  | cons name names ih =>
    obtain ⟨bound, rfl⟩ := Nat.exists_eq_add_one_of_ne_zero (Nat.ne_of_gt (Nat.zero_lt_of_lt hbound))
    obtain ⟨⟨hname, hfuel⟩, hnames⟩ := List.forall_mem_cons.1 hnames
    have hlater := ih hnames (Nat.lt_of_succ_lt_succ hbound) (.string (.ofList name) :: before)
    cases names with
    | nil =>
      rw [List.map_singleton, List.intercalate_singleton, readItems_bracket hname hfuel, List.map_singleton]
    | cons next names =>
      rw [List.map_cons, List.map_cons, List.intercalate_cons_cons, List.append_assoc, List.append_assoc,
        List.singleton_append, readItems_comma hname hfuel, ← List.map_cons, hlater]
      simp only [List.reverse_cons, List.append_assoc, List.singleton_append, List.map_cons]

/-- A document of one line. -/
theorem readLines_of_line {text : List Char} {line : Line} {d next : Draft}
    (h : readLine fuel text = some (line, ['\n'])) (hadd : d.add line = some next) :
    readLines (fuel + 1) d text = some next := by
  rw [readLines, h]
  show (d.add line >>= fun next => endLine? ['\n'] >>= _) = _
  rw [hadd]
  rfl

/-- A list of names is at least as long as there are names in it, and as each of them. -/
theorem length_le_intercalate (names : List (List Char)) :
    names.length ≤ ([','].intercalate (names.map quoted)).length ∧
      ∀ name ∈ names, name.length ≤ ([','].intercalate (names.map quoted)).length := by
  induction names with
  | nil => exact ⟨Nat.zero_le _, List.forall_mem_nil _⟩
  | cons name names ih =>
    obtain ⟨hcount, heach⟩ := ih
    cases names with
    | nil =>
      simp only [List.map_cons, List.map_nil, List.intercalate_singleton, quoted, List.length_cons, List.length_append]
      exact ⟨by omega, List.forall_mem_singleton.2 (by omega)⟩
    | cons next names =>
      simp only [List.map_cons, List.intercalate_cons_cons, List.length_append, List.length_cons, quoted] at hcount heach ⊢
      refine ⟨by omega, List.forall_mem_cons.2 ⟨by omega, fun other hother => ?_⟩⟩
      have hthis := heach other hother
      omega

end Toml

namespace Config

/-- A line of a configuration file that lists names of elements. -/
def rootOnlyLine (names : List (List Char)) : List Char :=
  "root_only = [".toList ++ ([','].intercalate (names.map Toml.quoted) ++ [']', '\n'])

/-- The line is read as a key with the names as strings. -/
theorem readLine_rootOnlyLine {names : List (List Char)} {fuel : Nat}
    (h : ∀ name ∈ names, IsName name ∧ name.length < fuel) (hcount : names.length < fuel) :
    Toml.readLine fuel (rootOnlyLine names) =
      some (.entry ["root_only"] (.array (names.map fun name => .string (.ofList name))), ['\n']) := by
  have hitems := Toml.readItems_quoted h hcount 79 [] ['\n']
  obtain ⟨fuel, rfl⟩ := Nat.exists_eq_add_one_of_ne_zero (Nat.ne_of_gt (Nat.zero_lt_of_lt hcount))
  have hkey (rest : List Char) : Toml.readKey (fuel + 1) ("root_only = [".toList ++ rest) =
      some (["root_only"], '=' :: ' ' :: '[' :: rest) := rfl
  have hvalue (rest : List Char) : Toml.readValue (fuel + 1) Toml.maxDepth ('[' :: rest) =
      (Toml.readItems (Toml.readValue (fuel + 1) 79) (fuel + 1) [] rest).map fun r => (.array r.1, r.2) := rfl
  have hkeyValue (rest : List Char) : Toml.readKeyValue Toml.skipSpace (Toml.readValue (fuel + 1) Toml.maxDepth)
      (fuel + 1) ("root_only = [".toList ++ rest) =
        (Toml.readValue (fuel + 1) Toml.maxDepth ('[' :: rest)).map fun r => ((["root_only"], r.1), r.2) := by
    rw [Toml.readKeyValue, hkey]
    rfl
  have hline (rest : List Char) : Toml.readLine (fuel + 1) ("root_only = [".toList ++ rest) =
      (Toml.readKeyValue Toml.skipSpace (Toml.readValue (fuel + 1) Toml.maxDepth) (fuel + 1)
        ("root_only = [".toList ++ rest)).map fun r => (.entry r.1.1 r.1.2, r.2) := rfl
  unfold rootOnlyLine
  refine (hline _).trans ?_
  rw [hkeyValue, hvalue, hitems]
  rfl

/-- The line is a document of one entry. -/
theorem toml_parse_rootOnlyLine {names : List (List Char)} (h : ∀ name ∈ names, IsName name) :
    Toml.parse (rootOnlyLine names) =
      some [("root_only", .array (names.map fun name => .string (.ofList name)))] := by
  obtain ⟨hcount, heach⟩ := Toml.length_le_intercalate names
  have hlength : ([','].intercalate (names.map Toml.quoted)).length ≤ (rootOnlyLine names).length := by
    unfold rootOnlyLine
    simp only [List.length_append]
    omega
  have hparse : Toml.parse (rootOnlyLine names) =
      (Toml.readLines ((rootOnlyLine names).length + 2) ⟨[], []⟩ (rootOnlyLine names)).map fun d => d.entries.toValues :=
    rfl
  have hshort : ∀ name ∈ names, IsName name ∧ name.length < (rootOnlyLine names).length + 1 := fun name hname =>
    ⟨h name hname, Nat.lt_succ_of_le (Nat.le_trans (heach name hname) hlength)⟩
  have hline := readLine_rootOnlyLine hshort (Nat.lt_succ_of_le (Nat.le_trans hcount hlength))
  rw [hparse, Toml.readLines_of_line hline rfl]
  rfl

theorem FileSettings.parse_rootOnlyLine {names : List (List Char)} (h : ∀ name ∈ names, IsName name) :
    parse (rootOnlyLine names) = some { default with rootOnly := names.map String.ofList } := by
  have hstrings : stringsOf? (.array (names.map fun name => .string (.ofList name))) = some (names.map String.ofList) := by
    have hmapped : (names.map fun name => Toml.Value.string (.ofList name)) = (names.map String.ofList).map .string := by
      rw [List.map_map]
      rfl
    rw [stringsOf?, hmapped]
    exact mapM_map fun _ => rfl
  rw [parse, toml_parse_rootOnlyLine h]
  show ((stringsOf? _).map _ >>= fun s => some s) = _
  rw [hstrings]
  rfl

end Config

end TagLint
