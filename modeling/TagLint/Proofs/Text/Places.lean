import TagLint.Text.Position
/-!
# Places are counted exactly

What a cursor keeps while it moves one character at a time is what counting in the text before it gives
(`Cursor.readAll_start`): the line breaks, the characters behind the last of them, and the bytes.
-/

namespace TagLint

/-! ## Counting in a text -/

/-- The number of line breaks in a text. A carriage return and the line feed behind it are one. -/
def breaks : List Char → Nat
  | [] => 0
  | '\r' :: '\n' :: rest => breaks rest + 1
  | c :: rest => breaks rest + if c = '\r' ∨ c = '\n' then 1 else 0

/-- The characters behind the last line break of a text, last first. -/
def lastLine (text : List Char) : List Char := text.reverse.takeWhile (fun c => c ≠ '\r' ∧ c ≠ '\n')

/-- The length of a text in UTF-8. -/
def byteSize (text : List Char) : Nat := (String.ofList text).utf8ByteSize

/-- The place behind a text that stands at the start. -/
def Position.behind (text : List Char) : Position := ⟨1 + breaks text, 1 + (lastLine text).length, byteSize text⟩

/-- Whether a line break is cut in two between a text and what follows it. -/
def CutsBreak (before after : List Char) : Prop := before.getLast? = some '\r' ∧ after.head? = some '\n'

/-- A position at which `src` is split in two: counting in the part before it gives the position, and no
line break is cut. -/
structure Position.Splits (p : Position) (src : String) (before after : List Char) : Prop where
  text : src.toList = before ++ after
  counted : p = .behind before
  whole : ¬ CutsBreak before after
  /-- The offset is the boundary of a character. -/
  boundary : (⟨p.offset⟩ : String.Pos.Raw).IsValid src
  inRange : p.offset ≤ src.utf8ByteSize

theorem byteSize_append (s t : List Char) : byteSize (s ++ t) = byteSize s + byteSize t := by
  simp [byteSize, String.ofList_append, String.utf8ByteSize_append]

theorem byteSize_singleton (c : Char) : byteSize [c] = c.utf8Size := by
  rw [byteSize, ← String.singleton_eq_ofList, String.utf8ByteSize_singleton]

theorem byteSize_pos {text : List Char} (h : text ≠ []) : 0 < byteSize text := by
  obtain ⟨c, rest, rfl⟩ := List.exists_cons_of_ne_nil h
  rw [← List.singleton_append, byteSize_append, byteSize_singleton]
  have := c.utf8Size_pos
  omega

theorem lastLine_concat (text : List Char) (c : Char) :
    lastLine (text ++ [c]) = if c = '\r' ∨ c = '\n' then [] else c :: lastLine text := by
  by_cases hr : c = '\r'
  · simp [lastLine, hr]
  · by_cases hn : c = '\n' <;> simp [lastLine, hr, hn]

theorem lastLine_of_getLast? {text : List Char} (h : text.getLast? = some '\r') : lastLine text = [] := by
  obtain ⟨s, rfl⟩ := List.getLast?_eq_some_iff.1 h
  rw [lastLine_concat, if_pos (.inl rfl)]

theorem breaks_singleton (c : Char) : breaks [c] = if c = '\r' ∨ c = '\n' then 1 else 0 := by
  simp [breaks]

theorem breaks_cons {c : Char} {rest : List Char} (h : ¬ (c = '\r' ∧ rest.head? = some '\n')) :
    breaks (c :: rest) = breaks rest + if c = '\r' ∨ c = '\n' then 1 else 0 := by
  rw [breaks]
  rintro r rfl rfl
  exact h ⟨rfl, rfl⟩

/-- Another character ends a line, unless it is the line feed of a break that the text ends with. -/
theorem breaks_concat (text : List Char) (c : Char) :
    breaks (text ++ [c]) = breaks text +
      if c = '\r' then 1 else if c = '\n' then (if text.getLast? = some '\r' then 0 else 1) else 0 := by
  fun_induction breaks text with
  | case1 =>
    rw [List.nil_append, breaks_singleton]
    by_cases hr : c = '\r' <;> by_cases hn : c = '\n' <;> simp [hr, hn]
  | case2 rest ih =>
    rw [List.cons_append, List.cons_append, breaks, ih]
    cases rest <;> simp [Nat.add_right_comm]
  | case3 d rest hd ih =>
    -- Only with nothing between them can the two characters make one break.
    cases rest with
    | nil =>
      by_cases hcut : d = '\r' ∧ c = '\n'
      · obtain ⟨rfl, rfl⟩ := hcut
        simp [breaks]
      · rw [List.cons_append, breaks_cons (by simpa using hcut), ih]
        by_cases hr : c = '\r' <;> by_cases hn : c = '\n' <;> simp_all [breaks, Nat.add_comm]
    | cons e rest =>
      have hhead : ¬ (d = '\r' ∧ (e :: rest ++ [c]).head? = some '\n') := by
        rintro ⟨rfl, he⟩
        obtain rfl : e = '\n' := by simpa using he
        exact hd rest rfl rfl
      rw [List.cons_append, breaks_cons hhead, ih, List.getLast?_cons_cons, Nat.add_right_comm]

/-! ## Splitting a text -/

theorem Position.splits_behind {src : String} {before after : List Char} (h : src.toList = before ++ after)
    (hw : ¬ CutsBreak before after) : (Position.behind before).Splits src before after := by
  have hsrc : src = .ofList before ++ .ofList after := by
    rw [← String.ofList_append, ← h, String.ofList_toList]
  refine ⟨h, rfl, hw, String.Pos.Raw.isValid_iff_exists_append.2 ⟨_, _, hsrc, rfl⟩, ?_⟩
  rw [hsrc, String.utf8ByteSize_append]
  exact Nat.le_add_right _ _

/-! ## Reading a text -/

namespace Cursor

/-- The cursor behind a text that stands at the start. -/
def behind (text : List Char) : Cursor := ⟨.behind text, text.getLast? = some '\r'⟩

theorem behind_nil : behind [] = start := rfl

theorem read_behind (text : List Char) (c : Char) : (behind text).read c = behind (text ++ [c]) := by
  have hbytes : byteSize (text ++ [c]) = byteSize text + c.utf8Size := by rw [byteSize_append, byteSize_singleton]
  by_cases hr : c = '\r'
  · subst hr
    simp [read, behind, Position.behind, breaks_concat, lastLine_concat, hbytes, Nat.add_assoc]
  · by_cases hn : c = '\n'
    · subst hn
      by_cases hlast : text.getLast? = some '\r'
      · simp [read, behind, Position.behind, breaks_concat, lastLine_concat, hbytes, hlast, lastLine_of_getLast? hlast]
      · simp [read, behind, Position.behind, breaks_concat, lastLine_concat, hbytes, hlast, Nat.add_assoc]
    · simp [read, behind, Position.behind, breaks_concat, lastLine_concat, hbytes, hr, hn, Nat.add_assoc]

theorem readAll_behind (s t : List Char) : (behind s).readAll t = behind (s ++ t) := by
  induction t generalizing s with
  | nil => simp [readAll_nil]
  | cons c t ih =>
    rw [readAll_cons, read_behind, ih]
    simp

/-- Reading a text from the start leads to the place that counting in it gives. -/
theorem readAll_start (text : List Char) : start.readAll text = behind text := by
  simpa [behind_nil] using readAll_behind [] text

end Cursor

end TagLint
