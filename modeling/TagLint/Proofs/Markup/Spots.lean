import TagLint.Proofs.Markup.LineEndings
import TagLint.Proofs.Markup.Positions
import TagLint.Proofs.Nesting.Relabelling
/-!
# Lines and columns do not depend on the style of line ends

Of a text without carriage returns and the same text in another style the tokens are the same, if offsets are not
looked at: each stands in the same line and column and holds the same text in the style (`tokenize_rewrite`). The
two cursors are out of step inside a line end only.
-/

namespace TagLint

/-- A place without its offset. -/
def Position.withoutOffset (p : Position) : Position := ⟨p.line, p.column, 0⟩

/-- A string with each line feed written as a line end of the style. -/
def LineEnding.rewrite (style : LineEnding) (s : String) : String := .ofList (inStyle style s.toList)

namespace Relabelling

/-- All places without their offsets. -/
def withoutOffsets : Relabelling where
  place := Position.withoutOffset
  text := id
  display_place _ := rfl
  place_start := rfl
  all_isSpace_text _ := rfl

/-- All texts in a style of line ends. -/
def inStyle (style : LineEnding) : Relabelling where
  place := id
  text := style.rewrite
  display_place _ := rfl
  place_start := rfl
  all_isSpace_text s := by rw [LineEnding.rewrite, String.toList_ofList, all_inStyle rfl]

end Relabelling

variable {style : LineEnding}

theorem LineEnding.rewrite_ofList (text : List Char) : style.rewrite (.ofList text) = .ofList (inStyle style text) := by
  rw [rewrite, String.toList_ofList]

/-! ## Two cursors -/

/-- A cursor in a text and one in the text in a style that stand in the same line and column. -/
structure Cursor.Agree (style : LineEnding) (k k' : Cursor) : Prop where
  place : k'.position.withoutOffset = k.position.withoutOffset
  notAfterReturn : k.afterReturn = false
  /-- Only where a carriage return is a line end of its own, the other cursor may stand behind one. -/
  afterReturn : k'.afterReturn = true → style = .carriageReturn

namespace Cursor.Agree

theorem start : Agree style .start .start := ⟨rfl, rfl, fun h => by cases h⟩

theorem read {k k' : Cursor} (h : Agree style k k') {c : Char} (hc : c ≠ '\r') :
    Agree style (k.read c) (k'.readAll (TagLint.inStyle style [c])) := by
  obtain ⟨⟨line, column, offset⟩, back⟩ := k
  obtain ⟨⟨line', column', offset'⟩, back'⟩ := k'
  obtain ⟨hplace, rfl, hback⟩ := h
  simp only [Position.withoutOffset, Position.mk.injEq, and_true] at hplace
  obtain ⟨rfl, rfl⟩ := hplace
  by_cases hn : c = '\n'
  · subst hn
    rw [inStyle_feed, inStyle_nil, List.append_nil]
    cases style with
    | lineFeed =>
      -- Behind a carriage return the line feed would be no line end of its own.
      have hfeed : back' = false := by
        cases back' with
        | false => rfl
        | true => cases hback rfl
      subst hfeed
      exact ⟨rfl, rfl, fun h => by cases h⟩
    | returnAndFeed => exact ⟨rfl, rfl, fun h => by cases h⟩
    | carriageReturn => exact ⟨rfl, rfl, fun _ => rfl⟩
  · rw [inStyle_cons hn, inStyle_nil, readAll_cons, readAll_nil]
    simp only [Cursor.read, hc, hn, if_false]
    exact ⟨rfl, rfl, fun h => by cases h⟩

theorem readAll {k k' : Cursor} (h : Agree style k k') {text : List Char} (hr : '\r' ∉ text) :
    Agree style (k.readAll text) (k'.readAll (TagLint.inStyle style text)) := by
  induction text generalizing k k' with
  | nil => exact h
  | cons c text ih =>
    simp only [List.mem_cons, not_or] at hr
    have hread := ih (h.read (Ne.symm hr.1)) hr.2
    rwa [← readAll_append, ← inStyle_append] at hread

end Cursor.Agree

/-! ## What is written -/

theorem IsName.notMem_feed {name : List Char} (h : IsName name) : '\n' ∉ name :=
  fun hm => absurd (h.all_isNameChar _ hm) (by decide)

theorem WrittenAttribute.Legal.text_inStyle {a : WrittenAttribute} (h : a.Legal) :
    (a.inStyle style).text = TagLint.inStyle style a.text := by
  have hquote : a.quote ≠ '\n' := by rcases h.quote with hq | hq <;> rw [hq] <;> decide
  have hequals : '=' ≠ '\n' := by decide
  simp only [text, assignment, inStyle, inStyle_append, inStyle_cons hquote, inStyle_cons hequals,
    inStyle_of_notMem h.name.notMem_feed, inStyle_nil]

theorem flatMap_text_inStyle {attributes : List WrittenAttribute} (ha : ∀ a ∈ attributes, a.Legal) :
    (attributes.map (WrittenAttribute.inStyle style)).flatMap WrittenAttribute.text =
      inStyle style (attributes.flatMap WrittenAttribute.text) := by
  induction attributes with
  | nil => rfl
  | cons a attributes ih =>
    rw [List.map_cons, List.flatMap_cons, List.flatMap_cons, inStyle_append, (ha a List.mem_cons_self).text_inStyle,
      ih fun b hb => ha b (List.mem_cons_of_mem _ hb)]

namespace Lexeme

theorem Legal.text_inStyle {l : Lexeme} (h : l.Legal) : (l.inStyle style).text = TagLint.inStyle style l.text := by
  have hmarks {front back : List Char} (hf : '\n' ∉ front) (hb : '\n' ∉ back) (body : List Char) :
      front ++ TagLint.inStyle style body ++ back = TagLint.inStyle style (front ++ body ++ back) := by
    rw [inStyle_append, inStyle_append, inStyle_of_notMem hf, inStyle_of_notMem hb]
  cases h with
  | data => rfl
  | comment | cdata | instruction | declaration => exact hmarks (by decide) (by decide) _
  | @closeTag name gap hn => exact hmarks (by simp [hn.notMem_feed]) (by decide) gap
  | @tag name attributes gap selfClosing hn ha =>
    simp only [Lexeme.inStyle, text, inStyle_append, inStyle_of_notMem hn.notMem_feed, flatMap_text_inStyle ha]
    cases selfClosing <;> rfl

/-- A tiled text is tiled in any style. -/
theorem Tiles.inStyle {source rest : List Char} {lexemes : List Lexeme} (h : Tiles source lexemes rest) :
    Tiles (TagLint.inStyle style source) (lexemes.map (Lexeme.inStyle style)) (TagLint.inStyle style rest) := by
  induction h with
  | nil => exact .nil
  | @cons l lexemes text rest hl hr _ ih =>
    refine .of_read ?_ ?_ ih
    · simp [text_ne_nil hl]
    · rw [read_inStyle, read_of_legal hl hr]
      rfl

theorem Tiles.flatMap_text_inStyle {source rest : List Char} {lexemes : List Lexeme} (h : Tiles source lexemes rest) :
    (lexemes.map (Lexeme.inStyle style)).flatMap text = TagLint.inStyle style (lexemes.flatMap text) := by
  have hstyled : Tiles (TagLint.inStyle style source) (lexemes.map (Lexeme.inStyle style))
      (TagLint.inStyle style rest) := h.inStyle
  have hsource := hstyled.text_eq
  rw [h.text_eq, inStyle_append] at hsource
  exact (List.append_cancel_right hsource).symm

end Lexeme

/-! ## Tokens -/

theorem WrittenAttribute.placed_inStyle {attributes : List WrittenAttribute} (ha : ∀ a ∈ attributes, a.Legal)
    (hr : '\r' ∉ attributes.flatMap text) {k k' : Cursor} (h : k.Agree style k') :
    (placed k' (attributes.map (inStyle style))).map (Attribute.relabel .withoutOffsets) =
      ((placed k attributes).map (Attribute.relabel (.inStyle style))).map (Attribute.relabel .withoutOffsets) := by
  induction attributes generalizing k k' with
  | nil => rfl
  | cons a attributes ih =>
    rw [List.flatMap_cons, List.mem_append, not_or] at hr
    have hgap : '\r' ∉ a.gap := fun hm => hr.1 (by simp [text, hm])
    have hrest := ih (fun b hb => ha b (List.mem_cons_of_mem _ hb)) hr.2 (h.readAll hr.1)
    simp only [List.map_cons, placed, (ha a List.mem_cons_self).text_inStyle, hrest]
    refine List.cons_eq_cons.2 ⟨?_, rfl⟩
    simp only [Attribute.relabel, Relabelling.withoutOffsets, Relabelling.inStyle, inStyle,
      LineEnding.rewrite_ofList, id, (h.readAll hgap).place]

namespace Lexeme

theorem token_inStyle {l : Lexeme} (hl : l.Legal) (hr : '\r' ∉ l.text) {k k' : Cursor} (h : k.Agree style k') :
    ((l.inStyle style).token k').relabel .withoutOffsets =
      ((l.token k).relabel (.inStyle style)).relabel .withoutOffsets := by
  have hkind : ((l.inStyle style).kind k').relabel .withoutOffsets =
      ((l.kind k).relabel (.inStyle style)).relabel .withoutOffsets := by
    have htext : (l.inStyle style).text = TagLint.inStyle style l.text := hl.text_inStyle
    cases hl with
    | @tag name attributes gap selfClosing hn ha =>
      simp only [text, List.mem_append, not_or] at hr
      have hopen := @Cursor.Agree.readAll style k k' h ('<' :: name) (by simpa using hr.1.1.1)
      rw [inStyle_cons (by decide), inStyle_of_notMem hn.notMem_feed] at hopen
      have hplaced := WrittenAttribute.placed_inStyle ha hr.1.1.2 hopen
      cases selfClosing <;>
        simp only [Lexeme.inStyle, kind, WrittenAttribute.place_eq, List.reverse_nil, List.nil_append, if_true, if_false,
          Bool.false_eq_true, TokenKind.relabel, hplaced]
    | closeTag => rfl
    | data | comment | cdata =>
      simp only [Lexeme.inStyle, kind, TokenKind.relabel, Relabelling.inStyle, LineEnding.rewrite_ofList]
    | instruction | declaration =>
      simp only [Lexeme.inStyle] at htext
      simp only [Lexeme.inStyle, kind, TokenKind.relabel, Relabelling.inStyle, LineEnding.rewrite_ofList, htext]
  simp only [token, Token.relabel, hkind]
  exact congrArg _ h.place

theorem Tiles.tokens_inStyle {source rest : List Char} {lexemes : List Lexeme} (ht : Tiles source lexemes rest)
    (hr : '\r' ∉ source) {k k' : Cursor} (h : k.Agree style k') :
    (tokens k' (lexemes.map (Lexeme.inStyle style))).map (Token.relabel .withoutOffsets) =
      ((tokens k lexemes).map (Token.relabel (.inStyle style))).map (Token.relabel .withoutOffsets) := by
  induction ht generalizing k k' with
  | nil => rfl
  | @cons l lexemes text rest hl _ _ ih =>
    rw [List.mem_append, not_or] at hr
    simp only [List.map_cons, tokens, token_inStyle hl hr.1 h, hl.text_inStyle, ih hr.2 (h.readAll hr.1)]

end Lexeme

theorem Fault.error_inStyle {fault : Fault} {source : List Char} (hf : Lexeme.read source = .error fault)
    (hr : '\r' ∉ source) {k k' : Cursor} (h : k.Agree style k') :
    ((fault.inStyle style).error k' (TagLint.inStyle style source)).relabel .withoutOffsets =
      ((fault.error k source).relabel (.inStyle style)).relabel .withoutOffsets := by
  obtain ⟨passed, rfl, -⟩ := Lexeme.fault_of_read hf
  rw [List.mem_append, not_or] at hr
  have herror : (fault.inStyle style).error k' (TagLint.inStyle style (passed ++ fault.rest)) =
      ⟨(k'.readAll (TagLint.inStyle style passed)).position, fault.cause.message⟩ := by
    rw [inStyle_append]
    exact @error_eq (fault.inStyle style) _ k'
  rw [herror, error_eq]
  simp only [SyntaxError.relabel, Relabelling.withoutOffsets, Relabelling.inStyle, id, (h.readAll hr.1).place]

/-- In another style a text has the same tokens in the same lines and columns, with their text in the style. -/
theorem tokenize_rewrite {s : String} (hr : '\r' ∉ s.toList) :
    (tokenize (style.rewrite s)).map (TokenItem.relabel .withoutOffsets) =
      ((tokenize s).map (TokenItem.relabel (.inStyle style))).map (TokenItem.relabel .withoutOffsets) := by
  have htext : (style.rewrite s).toList = inStyle style s.toList := by rw [LineEnding.rewrite, String.toList_ofList]
  have hok (r : Relabelling) (ts : List Token) :
      (ts.map Except.ok).map (TokenItem.relabel r) = (ts.map (Token.relabel r)).map .ok := by
    simp [TokenItem.relabel, Function.comp_def]
  have hstart : Cursor.Agree style .start .start := .start
  rw [tokenize, tokenize, htext]
  rcases Lexeme.tiles_cases s.toList with ⟨lexemes, ht⟩ | ⟨lexemes, rest, fault, ht, hf, -⟩
  · rw [Lexeme.tokenizeFrom_of_tiles ht, Lexeme.tokenizeFrom_of_tiles ht.inStyle, hok, hok, hok,
      ht.tokens_inStyle hr hstart]
  · have hf' : Lexeme.read (inStyle style rest) = .error (fault.inStyle style) := by
      rw [Lexeme.read_inStyle, hf]
      rfl
    have hsource := ht.text_eq
    rw [hsource, List.mem_append, not_or] at hr
    have herror := Fault.error_inStyle hf hr.2 (hstart.readAll hr.1)
    rw [← ht.flatMap_text_inStyle] at herror
    rw [Lexeme.tokenizeFrom_of_fault ht hf, Lexeme.tokenizeFrom_of_fault ht.inStyle hf']
    simp only [List.map_append, hok, ht.tokens_inStyle (hsource ▸ by simp [hr]) hstart, List.map_cons, List.map_nil,
      TokenItem.relabel, herror]

end TagLint
