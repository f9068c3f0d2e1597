import TagLint.Proofs.Markup.Tiling
import TagLint.Text.Blank
/-!
# Names and what surrounds them

Every name in a tag that the tokenizer yields is written as names must be (`named_of_mem_tokenize`). No character of
a name is blank or marks the end of something, so a name can be quoted, listed and trimmed without any of it getting
lost.
-/

namespace TagLint

/-! ## Characters of names -/

/-- The code points of blank characters. -/
def blankPoints : List Nat :=
  [0x09, 0x0A, 0x0B, 0x0C, 0x0D, 0x20, 0x85, 0xA0, 0x1680, 0x2000, 0x2001, 0x2002, 0x2003, 0x2004, 0x2005, 0x2006,
    0x2007, 0x2008, 0x2009, 0x200A, 0x2028, 0x2029, 0x202F, 0x205F, 0x3000]

theorem mem_blankPoints_of_isBlank {c : Char} (h : isBlank c) : c.toNat ∈ blankPoints := by
  simp only [isBlank, Bool.or_eq_true, Bool.and_eq_true, decide_eq_true_eq, beq_iff_eq] at h
  simp only [blankPoints, List.mem_cons, List.not_mem_nil, or_false]
  omega

/-- No letter and no numeral is blank. -/
theorem not_isNameChar_of_isBlank {c : Char} (h : isBlank c) : isNameChar c = false := by
  have hall : blankPoints.all fun n => !isNameChar (Char.ofNat n) := by decide +kernel
  have hc := List.all_eq_true.1 hall _ (mem_blankPoints_of_isBlank h)
  rw [Char.ofNat_toNat] at hc
  simpa using hc

theorem not_isBlank_of_isNameChar {c : Char} (h : isNameChar c) : isBlank c = false := by
  cases hc : isBlank c with
  | false => rfl
  | true => rw [not_isNameChar_of_isBlank hc] at h; cases h

theorem IsName.notMem {name : List Char} (h : IsName name) {c : Char} (hc : isNameChar c = false) : c ∉ name := by
  intro hmem
  rw [h.all_isNameChar c hmem] at hc
  cases hc

/-! ## Names in tags -/

/-- The name in a tag. -/
def Token.tagName? (t : Token) : Option String :=
  match t.kind with
  | .openTag name _ | .selfClosingTag name _ | .closeTag name => some name
  | .comment _ | .declaration _ | .text .. => none

/-- The name in a token, if it is a tag, is written as names must be. -/
def Token.Named (t : Token) : Prop := ∀ name ∈ t.tagName?, IsName name.toList

theorem Lexeme.Legal.named_token {l : Lexeme} (h : l.Legal) (k : Cursor) : (l.token k).Named := by
  cases h with
  | closeTag hname _ =>
    intro name hn
    obtain rfl := Option.some.inj hn
    rwa [String.toList_ofList]
  | @tag name attributes gap selfClosing hname _ _ _ =>
    intro name' hn
    have htag : (Lexeme.token k (.tag name attributes gap selfClosing)).tagName? = some (.ofList name) := by
      cases selfClosing <;> rfl
    rw [htag] at hn
    obtain rfl := Option.some.inj hn
    rwa [String.toList_ofList]
  | _ =>
    intro name hn
    cases hn

theorem Lexeme.Tiles.named_tokens {source rest : List Char} {lexemes : List Lexeme} (h : Tiles source lexemes rest)
    (k : Cursor) : ∀ t ∈ tokens k lexemes, t.Named := by
  induction h generalizing k with
  | nil => exact List.forall_mem_nil _
  | cons hl _ _ ih => exact List.forall_mem_cons.2 ⟨hl.named_token k, ih _⟩

/-- Whatever a text holds, the names in its tags are names. -/
theorem named_of_mem_tokenize {source : String} {t : Token} (h : .ok t ∈ tokenize source) : t.Named := by
  obtain ⟨lexemes, rest, ht, ⟨t, hmem, he⟩ | ⟨fault, -, he⟩⟩ := Lexeme.exists_tiles_of_mem_tokenize h
  · obtain rfl := Except.ok.inj he
    exact ht.named_tokens _ _ hmem
  · cases he

end TagLint
