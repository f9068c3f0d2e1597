import TagLint.Markup.Lexeme.Marked
import TagLint.Markup.Lexeme.Tag
/-!
# Reading lexemes

`Lexeme.read` takes the first lexeme off a text, or says where and why the text cannot be read. It loses
nothing: what it read and what it left make up the text (`Lexeme.read_eq`). `Lexeme.readAll` repeats it up
to the end of the text or its first fault.
-/

namespace TagLint

theorem isData_of_readComment {source text rest : List Char} {l : Lexeme}
    (h : readComment source text = .ok (l, rest)) : l.isData = false := by
  grind [readComment, Lexeme.isData]

theorem isData_of_readCData {source text rest : List Char} {l : Lexeme}
    (h : readCData source text = .ok (l, rest)) : l.isData = false := by
  grind [readCData, Lexeme.isData]

theorem isData_of_readInstruction {source text rest : List Char} {l : Lexeme}
    (h : readInstruction source text = .ok (l, rest)) : l.isData = false := by
  grind [readInstruction, Lexeme.isData]

theorem isData_of_readDeclaration {source text rest : List Char} {l : Lexeme}
    (h : readDeclaration source text = .ok (l, rest)) : l.isData = false := by
  cases text <;> grind [readDeclaration, Lexeme.isData]

theorem isData_of_readCloseTag {source text rest : List Char} {l : Lexeme}
    (h : readCloseTag source text = .ok (l, rest)) : l.isData = false := by
  grind [readCloseTag, Lexeme.isData]

theorem isData_of_readTagRest {source name : List Char} {read : List WrittenAttribute} {text rest : List Char}
    {l : Lexeme} (h : readTagRest source name read text = .ok (l, rest)) : l.isData = false := by
  fun_induction readTagRest source name read text <;> grind [Lexeme.isData]

theorem isData_of_readTag {source text rest : List Char} {l : Lexeme}
    (h : readTag source text = .ok (l, rest)) : l.isData = false := by
  grind [readTag, isData_of_readTagRest]


namespace Lexeme

/-- Reads the first lexeme of a text. The opening marks are tried from the most special one on. -/
def read (source : List Char) : Reading Lexeme :=
  if let some text := after? commentStart source then readComment source text
  else if let some text := after? cdataStart source then readCData source text
  else if let some text := after? ['<', '!'] source then readDeclaration source text
  else if let some text := after? ['<', '?'] source then readInstruction source text
  else if let some text := after? ['<', '/'] source then readCloseTag source text
  else if let some text := after? ['<'] source then readTag source text
  else
    match readRun (· == '<') source with
    | .error fault => .error fault
    | .ok (run, rest) => .ok (.data run, rest)

/-- Reading loses nothing: a lexeme read and the text left make up the text. -/
theorem read_eq {source rest : List Char} {l : Lexeme} (h : read source = .ok (l, rest)) :
    source = l.text ++ rest := by
  unfold read at h
  split at h
  next text ht => rw [after?_eq_some_iff.1 ht, readComment_eq h]
  next =>
  split at h
  next text ht => rw [after?_eq_some_iff.1 ht, readCData_eq h]
  next =>
  split at h
  next text ht => rw [after?_eq_some_iff.1 ht, ← readDeclaration_eq h]; rfl
  next =>
  split at h
  next text ht => rw [after?_eq_some_iff.1 ht, ← readInstruction_eq h]; rfl
  next =>
  split at h
  next text ht => rw [after?_eq_some_iff.1 ht, ← readCloseTag_eq h]; rfl
  next =>
  split at h
  next text ht => rw [after?_eq_some_iff.1 ht, ← readTag_eq h]; rfl
  next =>
  split at h
  next => simp at h
  next run r hr =>
    simp only [Except.ok.injEq, Prod.mk.injEq] at h
    obtain ⟨rfl, rfl⟩ := h
    exact readRun_eq hr

theorem text_ne_nil_of_read {c : Char} {source rest : List Char} {l : Lexeme}
    (h : read (c :: source) = .ok (l, rest)) (hl : l.isData = true) : l.text ≠ [] := by
  unfold read at h
  split at h
  next => simp [isData_of_readComment h] at hl
  next =>
  split at h
  next => simp [isData_of_readCData h] at hl
  next =>
  split at h
  next => simp [isData_of_readDeclaration h] at hl
  next =>
  split at h
  next => simp [isData_of_readInstruction h] at hl
  next =>
  split at h
  next => simp [isData_of_readCloseTag h] at hl
  next =>
  split at h
  next => simp [isData_of_readTag h] at hl
  next hc =>
  split at h
  next => simp at h
  next run r hr =>
    simp only [Except.ok.injEq, Prod.mk.injEq] at h
    obtain ⟨rfl, rfl⟩ := h
    have hne : (c == '<') = false := beq_eq_false_iff_ne.2 fun e => hc source (by simp [after?, e])
    exact ne_nil_of_readRun hr hne

theorem length_lt_of_read {c : Char} {source rest : List Char} {l : Lexeme}
    (h : read (c :: source) = .ok (l, rest)) : rest.length < (c :: source).length := by
  have hlen := congrArg List.length (read_eq h)
  have hpos : l.text ≠ [] := by
    cases hl : l.isData with
    | false => obtain ⟨t, ht⟩ := text_eq_cons_of_markup hl; simp [ht]
    | true => exact text_ne_nil_of_read h hl
  have := List.length_pos_iff.2 hpos
  simp at hlen ⊢
  omega

/-- Reads lexemes up to the end of a text or its first fault; `before` holds those read already, last first. -/
def readFrom (before : List Lexeme) (source : List Char) : List Lexeme × List Char × Option Fault :=
  match source with
  | [] => (before.reverse, [], none)
  | c :: text =>
    match _ : read (c :: text) with
    | .error fault => (before.reverse, c :: text, some fault)
    | .ok (l, rest) => readFrom (l :: before) rest
termination_by source.length
decreasing_by exact length_lt_of_read ‹_›

/-- The lexemes of a text up to its end or its first fault, with what is left there. -/
def readAll (source : List Char) : List Lexeme × List Char × Option Fault := readFrom [] source

end Lexeme

end TagLint
