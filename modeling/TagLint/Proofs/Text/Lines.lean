import TagLint.Text.Position
/-!
# Texts on one line

A text is unbroken if neither of the characters that break lines stands in it. Texts of that kind, each ended by a
line feed, are the lines of the text that they make up (`splitOn_join_lines`).
-/

namespace TagLint

/-- No line ends in a text. -/
structure Unbroken (text : String) : Prop where
  feed_notMem : '\n' ∉ text.toList
  return_notMem : '\r' ∉ text.toList

theorem unbroken_append {s t : String} : Unbroken (s ++ t) ↔ Unbroken s ∧ Unbroken t := by
  constructor
  · rintro ⟨hn, hr⟩
    rw [String.toList_append, List.mem_append, not_or] at hn hr
    exact ⟨⟨hn.1, hr.1⟩, ⟨hn.2, hr.2⟩⟩
  · rintro ⟨hs, ht⟩
    constructor
    · rw [String.toList_append, List.mem_append, not_or]
      exact ⟨hs.feed_notMem, ht.feed_notMem⟩
    · rw [String.toList_append, List.mem_append, not_or]
      exact ⟨hs.return_notMem, ht.return_notMem⟩

theorem unbroken_toString {s : String} : Unbroken (toString s) ↔ Unbroken s := Iff.rfl

theorem unbroken_ofList {p : Char → Bool} {text : List Char} (hn : p '\n' = false) (hr : p '\r' = false)
    (h : ∀ c ∈ text, p c) : Unbroken (.ofList text) := by
  constructor
  · intro hm
    rw [String.toList_ofList] at hm
    rw [h _ hm] at hn
    cases hn
  · intro hm
    rw [String.toList_ofList] at hm
    rw [h _ hm] at hr
    cases hr

/-- For texts that are written out. -/
theorem unbroken_literal {text : List Char} (h : text.all fun c => c != '\n' && c != '\r') :
    Unbroken (.ofList text) :=
  unbroken_ofList rfl rfl (List.all_eq_true.1 h)

theorem unbroken_intercalate {separator : String} {list : List String} (hs : Unbroken separator)
    (h : ∀ t ∈ list, Unbroken t) : Unbroken (separator.intercalate list) := by
  induction list with
  | nil => exact unbroken_literal rfl
  | cons t list ih =>
    obtain ⟨ht, hlist⟩ := List.forall_mem_cons.1 h
    cases list with
    | nil => simpa using ht
    | cons u list =>
      rw [String.intercalate_cons_cons, unbroken_append, unbroken_append]
      exact ⟨⟨ht, hs⟩, ih hlist⟩

theorem unbroken_number (n : Nat) : Unbroken (toString n) := by
  rw [Nat.toString_eq_ofList_toDigits]
  exact unbroken_ofList (by decide) (by decide) fun c hc => Nat.isDigit_of_mem_toDigits (by decide) (by decide) hc

theorem Position.unbroken_display (p : Position) : Unbroken p.display := by
  unfold display
  rw [unbroken_append, unbroken_append]
  exact ⟨⟨unbroken_number _, unbroken_literal rfl⟩, unbroken_number _⟩

/-- Lines are found again in the text that they make up. -/
theorem splitOn_join_lines {lines : List String} (h : ∀ line ∈ lines, Unbroken line) :
    (String.join (lines.map (· ++ "\n"))).toList.splitOn '\n' = lines.map String.toList ++ [[]] := by
  simp only [String.toList_join, List.flatMap_map]
  induction lines with
  | nil => rfl
  | cons line lines ih =>
    obtain ⟨hline, hlines⟩ := List.forall_mem_cons.1 h
    have hfeed : (line ++ "\n").toList = line.toList ++ ['\n'] := by simp
    rw [List.flatMap_cons, hfeed, List.append_assoc, List.singleton_append,
      List.splitOn_append_cons_self_of_not_mem hline.feed_notMem, ih hlines]
    rfl

theorem return_notMem_join_lines {lines : List String} (h : ∀ line ∈ lines, Unbroken line) :
    '\r' ∉ (String.join (lines.map (· ++ "\n"))).toList := by
  simp only [String.toList_join, List.flatMap_map, List.mem_flatMap, not_exists, not_and]
  intro line hline
  have hfeed : (line ++ "\n").toList = line.toList ++ ['\n'] := by simp
  rw [hfeed, List.mem_append, List.mem_singleton, not_or]
  exact ⟨(h line hline).return_notMem, by decide⟩

end TagLint
