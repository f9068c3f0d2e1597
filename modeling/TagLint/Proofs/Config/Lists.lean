import TagLint.Proofs.Config.Acceptance
/-!
# Lists in variables

A list is read as what stands between its commas, without the space around it. It is refused at the first place where
nothing stands, and entries written with commas between them are read back as they are (`parseList_reads`).
-/

namespace TagLint.Config

/-! ## Where a list is refused -/

/-- Between the commas of a text that is not blank, the piece at a position, counted from 1, is the first that is
blank. -/
def FirstBlank (text : String) (position : Nat) : Prop :=
  (∃ c ∈ text.toList, isBlank c = false) ∧
    ∃ before piece after, text.toList = [','].intercalate (before ++ piece :: after) ∧
      (∀ p ∈ before ++ piece :: after, ',' ∉ p) ∧ (∀ p ∈ before, ∃ c ∈ p, isBlank c = false) ∧
      (∀ c ∈ piece, isBlank c) ∧ position = before.length + 1

theorem findIdx?_isEmpty_eq_some_iff {pieces : List (List Char)} {i : Nat} :
    (pieces.map trimChars).findIdx? List.isEmpty = some i ↔
      ∃ before piece after, pieces = before ++ piece :: after ∧ (∀ p ∈ before, ∃ c ∈ p, isBlank c = false) ∧
        (∀ c ∈ piece, isBlank c) ∧ before.length = i := by
  constructor
  · intro h
    obtain ⟨hi, hempty, hfilled⟩ := List.findIdx?_eq_some_iff_getElem.1 h
    rw [List.length_map] at hi
    rw [List.getElem_map, List.isEmpty_iff, trimChars_eq_nil_iff] at hempty
    refine ⟨pieces.take i, pieces[i], pieces.drop (i + 1), ?_, fun p hp => ?_, hempty, List.length_take_of_le hi.le⟩
    · rw [List.getElem_cons_drop, List.take_append_drop]
    · obtain ⟨j, hj, rfl⟩ := List.mem_take_iff_getElem.1 hp
      have hne := hfilled j (lt_of_lt_of_le hj (min_le_left _ _))
      rw [List.getElem_map, List.isEmpty_iff] at hne
      exact trimChars_ne_nil_iff.1 hne
  · rintro ⟨before, piece, after, rfl, hbefore, hpiece, rfl⟩
    have hnone := findIdx?_isEmpty_eq_none_iff.2 fun p hp => trimChars_ne_nil_iff.2 (hbefore p hp)
    rw [List.map_append, List.findIdx?_append, hnone, List.map_cons, List.findIdx?_cons,
      trimChars_eq_nil_iff.2 hpiece, List.length_map]
    simp

theorem parseList_eq_error_iff {text : String} {position : Nat} :
    parseList text = .error position ↔ FirstBlank text position := by
  unfold parseList
  dsimp only
  constructor
  · intro h
    split at h
    next => cases h
    next hfilled =>
      rw [List.isEmpty_iff] at hfilled
      split at h
      next i hi =>
        obtain rfl := Except.error.inj h
        obtain ⟨before, piece, after, hpieces, hbefore, hpiece, rfl⟩ := findIdx?_isEmpty_eq_some_iff.1 hi
        refine ⟨trimChars_ne_nil_iff.1 hfilled, before, piece, after, ?_, fun p hp => ?_, hbefore, hpiece, rfl⟩
        · rw [← hpieces, splitOn_eq]
          exact (List.intercalate_splitOn ',').symm
        · exact notMem_of_mem_splitOn (hpieces ▸ hp)
      next => cases h
  · rintro ⟨hfilled, before, piece, after, htext, hcomma, hbefore, hpiece, rfl⟩
    have hsplit : splitOn ',' text.toList = before ++ piece :: after := by
      rw [splitOn_eq, htext]
      exact List.splitOn_intercalate ',' hcomma (by simp)
    rw [if_neg (mt List.isEmpty_iff.1 (trimChars_ne_nil_iff.2 hfilled)), hsplit,
      findIdx?_isEmpty_eq_some_iff.2 ⟨before, piece, after, rfl, hbefore, hpiece, rfl⟩]

/-- A refused list is reported with the position and the name of the variable. -/
theorem variableList_eq_error_iff {name text : String} {e : ConfigError} :
    variableList name (some text) = .error e ↔ ∃ position, FirstBlank text position ∧ e = .emptyEntry position name := by
  simp only [← parseList_eq_error_iff]
  unfold variableList
  dsimp only
  cases parseList text with
  | ok names => exact iff_of_false nofun nofun
  | error position =>
    constructor
    · intro h
      exact ⟨position, rfl, (Except.error.inj h).symm⟩
    · rintro ⟨position', h, rfl⟩
      obtain rfl := Except.error.inj h
      rfl

/-! ## Lists written out -/

/-- Entries without commas, with any space around each and commas between them, are a list of these entries. -/
theorem lists_of_trimsTo {pieces : List (List Char)} {entries : List String}
    (h : List.Forall₂ (fun piece entry => TrimsTo piece entry.toList) pieces entries)
    (hentries : ∀ entry ∈ entries, entry ≠ "" ∧ ',' ∉ entry.toList) :
    Lists (.ofList ([','].intercalate pieces)) entries := by
  have hpieces : (∀ piece ∈ pieces, ',' ∉ piece) ∧
      List.Forall₂ (fun piece name => TrimsTo piece name.toList ∧ name ≠ "") pieces entries := by
    induction h with
    | nil => exact ⟨List.forall_mem_nil _, .nil⟩
    | cons htrims _ ih =>
      obtain ⟨⟨hne, hcomma⟩, hrest⟩ := List.forall_mem_cons.1 hentries
      obtain ⟨hcommas, hnames⟩ := ih hrest
      exact ⟨List.forall_mem_cons.2 ⟨htrims.notMem (by decide) hcomma, hcommas⟩, .cons ⟨htrims, hne⟩ hnames⟩
  cases pieces with
  | nil =>
    cases h
    exact .blank (List.forall_mem_nil _)
  | cons piece pieces => exact .entries (List.cons_ne_nil piece pieces) String.toList_ofList hpieces.1 hpieces.2

/-! ## Main theorem -/

/-- A list is read exactly as what stands between its commas, and refused exactly at the first blank there. Entries that
are not empty, hold no comma and have no space at their ends are read back from the list that they are written out to,
whatever space stands around them. -/
theorem parseList_reads :
    (∀ (text : String) (names : List String), parseList text = .ok names ↔ Lists text names) ∧
      (∀ (text : String) (position : Nat), parseList text = .error position ↔ FirstBlank text position) ∧
      (∀ (name text : String) (e : ConfigError), variableList name (some text) = .error e ↔
        ∃ position, FirstBlank text position ∧ e = .emptyEntry position name) ∧
      ∀ (pieces : List (List Char)) (entries : List String),
        List.Forall₂ (fun piece entry => TrimsTo piece entry.toList) pieces entries →
        (∀ entry ∈ entries, entry ≠ "" ∧ ',' ∉ entry.toList) →
          parseList (.ofList ([','].intercalate pieces)) = .ok entries :=
  ⟨fun _ _ => parseList_eq_ok_iff, fun _ _ => parseList_eq_error_iff, fun _ _ _ => variableList_eq_error_iff,
    fun _ _ hpieces hentries => parseList_eq_ok_iff.2 (lists_of_trimsTo hpieces hentries)⟩

/-- Two entries, one of them with a space inside, between spaces of several kinds. -/
theorem parseList_reads_spaced :
    let pieces : List (List Char) := [[' ', 'a', '\t'], ['\u3000', 'b', ' ', 'c']]
    List.Forall₂ (fun piece entry => TrimsTo piece entry.toList) pieces ["a", "b c"] ∧
      (∀ entry ∈ ["a", "b c"], entry ≠ "" ∧ ',' ∉ entry.toList) ∧ parseList " a\t,\u3000b c" = .ok ["a", "b c"] := by
  intro pieces
  have hspace {c : Char} (hc : isBlank c = true) : ∀ d ∈ [c], isBlank d := List.forall_mem_singleton.2 hc
  have hend {c : Char} (hc : isBlank c = false) : ∀ d ∈ some c, isBlank d = false := fun _ hd => Option.some.inj hd ▸ hc
  have hpieces : List.Forall₂ (fun piece entry => TrimsTo piece entry.toList) pieces ["a", "b c"] :=
    .cons ⟨[' '], ['\t'], rfl, hspace rfl, hspace rfl, hend rfl, hend rfl⟩
      (.cons ⟨['\u3000'], [], rfl, hspace rfl, List.forall_mem_nil _, hend rfl, hend rfl⟩ .nil)
  have hentries : ∀ entry ∈ ["a", "b c"], entry ≠ "" ∧ ',' ∉ entry.toList := by decide
  have htext : " a\t,\u3000b c" = String.ofList ([','].intercalate pieces) := rfl
  refine ⟨hpieces, hentries, ?_⟩
  rw [htext]
  exact parseList_reads.2.2.2 pieces _ hpieces hentries

end TagLint.Config
