import TagLint.Markup.Lexeme.Read
import TagLint.Proofs.Text.Runs
/-!
# The grammar of markup

Which lexemes markup is made of, said without reading: a lexeme is `Legal` when it is written as its kind
asks, and lexemes tile a text (`Tiles`) when they stand one behind the other at its front. Character data
goes as far as it can, so it ends at an angle bracket or at the end of the text.
-/

namespace TagLint

/-! ## Parts of lexemes -/

/-- A name: a character that begins one, then characters that follow it. -/
def IsName (name : List Char) : Prop :=
  ∃ c rest, name = c :: rest ∧ isNameStart c ∧ ∀ d ∈ rest, isNameChar d

/-- Characters that only separate the parts of a tag. -/
def IsSpaces (gap : List Char) : Prop := ∀ c ∈ gap, isSpace c

/-- Each ampersand of a text begins a reference. -/
def ReferencesRead (text : List Char) : Prop :=
  ∀ before after, text = before ++ '&' :: after → ∃ body rest, Reference.read after = .ok (body, rest)

/-- The text of a declaration inside `depth` brackets, up to the angle bracket that ends it, which is the
first one outside quotes and brackets. A bracket that closes nothing is passed over. -/
inductive DeclarationBody : Nat → List Char → Prop
  | ended : DeclarationBody 0 []
  | quoted {depth : Nat} {quote : Char} {literal rest : List Char} :
    quote = '"' ∨ quote = '\'' → quote ∉ literal → DeclarationBody depth rest →
      DeclarationBody depth (quote :: literal ++ quote :: rest)
  | opening {depth : Nat} {rest : List Char} : DeclarationBody (depth + 1) rest → DeclarationBody depth ('[' :: rest)
  | closing {depth : Nat} {rest : List Char} : DeclarationBody (depth - 1) rest → DeclarationBody depth (']' :: rest)
  | other {depth : Nat} {c : Char} {rest : List Char} :
    c ∉ ['"', '\'', '[', ']'] → (c = '>' → depth ≠ 0) → DeclarationBody depth rest → DeclarationBody depth (c :: rest)

/-- An attribute as it must be written. -/
structure WrittenAttribute.Legal (a : WrittenAttribute) : Prop where
  gap_ne_nil : a.gap ≠ []
  gap : IsSpaces a.gap
  name : IsName a.name
  beforeEquals : IsSpaces a.beforeEquals
  afterEquals : IsSpaces a.afterEquals
  quote : a.quote = '"' ∨ a.quote = '\''
  value : ∀ c ∈ a.value, c ≠ a.quote ∧ c ≠ '<'
  references : ReferencesRead a.value

namespace Lexeme

/-! ## Lexemes -/

/-- A lexeme as it must be written. -/
inductive Legal : Lexeme → Prop
  | data {text : List Char} : text ≠ [] → '<' ∉ text → ReferencesRead text → Legal (.data text)
  | comment {body : List Char} : ¬ ['-', '-'] <:+: body → body.getLast? ≠ some '-' → Legal (.comment body)
  | cdata {body : List Char} : EndsAtFirst cdataEnd body → Legal (.cdata body)
  | instruction {body : List Char} : EndsAtFirst ['?', '>'] body → Legal (.instruction body)
  | declaration {c : Char} {body : List Char} :
    c.isAlpha → DeclarationBody 0 (c :: body) → Legal (.declaration (c :: body))
  | closeTag {name gap : List Char} : IsName name → IsSpaces gap → Legal (.closeTag name gap)
  | tag {name : List Char} {attributes : List WrittenAttribute} {gap : List Char} {selfClosing : Bool} :
    IsName name → (∀ a ∈ attributes, a.Legal) → (attributes.map WrittenAttribute.name).Nodup → IsSpaces gap →
      Legal (.tag name attributes gap selfClosing)

/-- Whether a lexeme may stand before a text: character data only if it cannot go on there. -/
def EndsBefore (l : Lexeme) (rest : List Char) : Prop := l.isData → ∀ c ∈ rest.head?, c = '<'

/-- Lexemes at the front of a text, one behind the other, and the text behind them. -/
inductive Tiles : List Char → List Lexeme → List Char → Prop
  | nil {rest : List Char} : Tiles rest [] rest
  | cons {l : Lexeme} {lexemes : List Lexeme} {text rest : List Char} :
    l.Legal → l.EndsBefore text → Tiles text lexemes rest → Tiles (l.text ++ text) (l :: lexemes) rest

/-- No lexeme stands at the front of a text. -/
def NoneAt (text : List Char) : Prop := ∀ l rest, Legal l → l.EndsBefore rest → text ≠ l.text ++ rest

theorem text_ne_nil {l : Lexeme} (h : l.Legal) : l.text ≠ [] := by
  cases h with
  | data hne => exact hne
  | _ => simp [text, commentStart, cdataStart]

theorem noneAt_nil : NoneAt [] := by
  intro l rest hl _ h
  exact text_ne_nil hl (List.append_eq_nil_iff.1 h.symm).1

theorem Tiles.text_eq {source rest : List Char} {lexemes : List Lexeme} (h : Tiles source lexemes rest) :
    source = lexemes.flatMap Lexeme.text ++ rest := by
  induction h with
  | nil => rfl
  | cons _ _ _ ih => rw [ih]; simp

end Lexeme

/-! ## Which characters stand where -/

theorem isNameChar_of_isNameStart {c : Char} (h : isNameStart c) : isNameChar c := by
  by_cases hc : c.toNat < 0x80
  · simp only [isNameStart, hc, if_true, Bool.or_eq_true] at h
    simp only [isNameChar, hc, if_true, Char.isAlphanum, Bool.or_eq_true]
    rcases h with (h | h) | h <;> simp [h]
  · simp only [isNameStart, hc, if_false] at h
    simp [isNameChar, hc, h]

theorem IsName.all_isNameChar {name : List Char} (h : IsName name) : ∀ c ∈ name, isNameChar c := by
  obtain ⟨c, rest, rfl, hc, hrest⟩ := h
  intro d hd
  rcases List.mem_cons.1 hd with rfl | hd
  · exact isNameChar_of_isNameStart hc
  · exact hrest d hd

theorem not_isNameChar_of_isSpace {c : Char} (h : isSpace c) : isNameChar c = false := by
  simp only [isSpace, Bool.or_eq_true, beq_iff_eq] at h
  rcases h with ((rfl | rfl) | rfl) | rfl <;> decide

/-- A text whose first character, if there is one, is a space or one of the given characters. -/
theorem not_isNameChar_head {gap rest : List Char} (hg : IsSpaces gap) (hr : ∀ c ∈ rest.head?, isNameChar c = false) :
    ∀ c ∈ (gap ++ rest).head?, isNameChar c = false := by
  cases gap with
  | nil => exact hr
  | cons s gap =>
    intro c hc
    obtain rfl : s = c := by simpa using hc
    exact not_isNameChar_of_isSpace (hg s List.mem_cons_self)

end TagLint
