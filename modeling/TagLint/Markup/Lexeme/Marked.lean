import TagLint.Text.Split
import TagLint.Markup.Lexeme.Data
/-!
# Reading comments, sections, instructions and declarations

The constructs that end at a mark of their own. For all but declarations it is the first place where the
mark stands; a declaration ends at the first angle bracket outside quotes and brackets.
-/

namespace TagLint

/-- Reads a comment from behind its opening mark; `source` is the text from the mark on. -/
def readComment (source text : List Char) : Reading Lexeme :=
  match splitAt? ['-', '-'] text with
  | none => .error ⟨source, .unterminatedComment⟩
  | some (body, '>' :: rest) => .ok (.comment body, rest)
  | some (_, rest) => .error ⟨'-' :: '-' :: rest, .hyphensInComment⟩

/-- Reads a section from behind its opening mark; `source` is the text from the mark on. -/
def readCData (source text : List Char) : Reading Lexeme :=
  match splitAt? Lexeme.cdataEnd text with
  | none => .error ⟨source, .unterminatedSection⟩
  | some (body, rest) => .ok (.cdata body, rest)

/-- Reads an instruction from behind its opening mark; `source` is the text from the mark on. -/
def readInstruction (source text : List Char) : Reading Lexeme :=
  match splitAt? ['?', '>'] text with
  | none => .error ⟨source, .unterminatedInstruction⟩
  | some (body, rest) => .ok (.instruction body, rest)

/-- Where a place in a declaration stands: inside which quotes, and inside how many brackets. -/
structure DeclarationState where
  quote : Option Char
  depth : Nat
deriving DecidableEq

namespace DeclarationState

/-- Before the first character of a declaration. -/
def start : DeclarationState := ⟨none, 0⟩

/-- Outside all quotes and brackets, where an angle bracket ends the declaration. -/
def outside (state : DeclarationState) : Bool := state.quote.isNone && state.depth == 0

/-- Moves over a character. Brackets count outside quotes only, and one that closes nothing is passed over. -/
def step (state : DeclarationState) (c : Char) : DeclarationState :=
  match state.quote with
  | some quote => if c = quote then ⟨none, state.depth⟩ else state
  | none =>
    if c = '"' ∨ c = '\'' then ⟨some c, state.depth⟩
    else if c = '[' then ⟨none, state.depth + 1⟩
    else if c = ']' then ⟨none, state.depth - 1⟩
    else state

end DeclarationState

/-- Splits a text at the angle bracket that ends a declaration; `read` holds what was passed, last first. -/
def splitDeclaration? (state : DeclarationState) (read : List Char) : List Char → Option (List Char × List Char)
  | [] => none
  | c :: text =>
    if c = '>' ∧ state.outside then some (read.reverse, text)
    else splitDeclaration? (state.step c) (c :: read) text

theorem splitDeclaration?_eq {state : DeclarationState} {read text body rest : List Char}
    (h : splitDeclaration? state read text = some (body, rest)) :
    read.reverse ++ text = body ++ '>' :: rest := by
  induction text generalizing state read with
  | nil => simp [splitDeclaration?] at h
  | cons c text ih =>
    simp only [splitDeclaration?] at h
    split at h
    next hc =>
      obtain ⟨rfl, rfl⟩ : read.reverse = body ∧ text = rest := by simpa using h
      rw [hc.1]
    next => simpa using ih h

/-- Reads a declaration from behind its opening mark; `source` is the text from the mark on. -/
def readDeclaration (source text : List Char) : Reading Lexeme :=
  match text with
  | [] => .error ⟨text, .malformedDeclaration⟩
  | c :: _ =>
    if c.isAlpha then
      match splitDeclaration? .start [] text with
      | none => .error ⟨source, .unterminatedDeclaration⟩
      | some (body, rest) => .ok (.declaration body, rest)
    else .error ⟨text, .malformedDeclaration⟩

theorem readComment_eq {source text rest : List Char} {l : Lexeme}
    (h : readComment source text = .ok (l, rest)) : Lexeme.commentStart ++ text = l.text ++ rest := by
  unfold readComment at h
  split at h
  next => simp at h
  next body r hr =>
    simp only [Except.ok.injEq, Prod.mk.injEq] at h
    obtain ⟨rfl, rfl⟩ := h
    rw [splitAt?_eq hr]
    simp [Lexeme.text]
  next => simp at h

theorem readCData_eq {source text rest : List Char} {l : Lexeme}
    (h : readCData source text = .ok (l, rest)) : Lexeme.cdataStart ++ text = l.text ++ rest := by
  unfold readCData at h
  split at h
  next => simp at h
  next body r hr =>
    simp only [Except.ok.injEq, Prod.mk.injEq] at h
    obtain ⟨rfl, rfl⟩ := h
    rw [splitAt?_eq hr]
    simp [Lexeme.text]

theorem readInstruction_eq {source text rest : List Char} {l : Lexeme}
    (h : readInstruction source text = .ok (l, rest)) : '<' :: '?' :: text = l.text ++ rest := by
  unfold readInstruction at h
  split at h
  next => simp at h
  next body r hr =>
    simp only [Except.ok.injEq, Prod.mk.injEq] at h
    obtain ⟨rfl, rfl⟩ := h
    rw [splitAt?_eq hr]
    simp [Lexeme.text]

theorem readDeclaration_eq {source text rest : List Char} {l : Lexeme}
    (h : readDeclaration source text = .ok (l, rest)) : '<' :: '!' :: text = l.text ++ rest := by
  unfold readDeclaration at h
  split at h
  next => simp at h
  next c text' =>
    split at h
    next =>
      split at h
      next => simp at h
      next body r hr =>
        simp only [Except.ok.injEq, Prod.mk.injEq] at h
        obtain ⟨rfl, rfl⟩ := h
        have := splitDeclaration?_eq hr
        simp only [List.reverse_nil, List.nil_append] at this
        rw [this]
        simp [Lexeme.text]
    next => simp at h

end TagLint
