import Mathlib.Data.List.Induction
import TagLint.Proofs.Markup.Positions
/-!
# Texts one behind the other

Where a text may end, reading starts anew: the tokens of two texts one behind the other are those of the first and
then those of the second, which stand as far behind the end of the first as they did behind the start
(`tokenize_append`).
-/

namespace TagLint

/-! ## Places in the second text -/

/-- The place that a place in a text has when `front` stands before the text. -/
def Position.shift (front : List Char) (p : Position) : Position where
  line := p.line + breaks front
  column := if p.line = 1 then p.column + (lastLine front).length else p.column
  offset := p.offset + byteSize front

theorem CutsBreak.append {before after : List Char} (h : CutsBreak before after) (rest : List Char) :
    CutsBreak before (after ++ rest) := by
  obtain ⟨hlast, hhead⟩ := h
  refine ⟨hlast, ?_⟩
  rw [List.head?_append, hhead]
  rfl

/-- Over a line feed two cursors go alike only if both stand behind a carriage return or neither does. -/
theorem Cursor.read_shift {front : List Char} {k k' : Cursor} {c : Char} (hp : k'.position = k.position.shift front)
    (hline : 0 < k.position.line) (hback : c = '\n' → k'.afterReturn = k.afterReturn) :
    (k'.read c).position = (k.read c).position.shift front := by
  obtain ⟨⟨line, column, offset⟩, back⟩ := k
  obtain ⟨p, back'⟩ := k'
  dsimp only at hp hline hback
  subst hp
  by_cases hr : c = '\r'
  · subst hr
    simp [read, Position.shift]
    omega
  · by_cases hn : c = '\n'
    · obtain rfl := hback hn
      subst hn
      cases back' with
      | true =>
        simp [read, Position.shift]
        omega
      | false =>
        simp [read, Position.shift]
        omega
    · simp only [read, hr, hn, if_false, Position.shift, Position.mk.injEq, true_and]
      constructor
      · split <;> omega
      · omega

/-- Counting in two texts is counting in the second, shifted by the first. -/
theorem Position.behind_append {s t : List Char} (h : ¬ CutsBreak s t) :
    Position.behind (s ++ t) = (Position.behind t).shift s := by
  induction t using List.reverseRecOn with
  | nil => simp [behind, shift, breaks, lastLine, byteSize]
  | append_singleton t c ih =>
    have hplace (text : List Char) : Position.behind (text ++ [c]) = ((Cursor.behind text).read c).position := by
      rw [Cursor.read_behind]
      rfl
    rw [← List.append_assoc, hplace, hplace]
    apply Cursor.read_shift
    · exact ih fun hcut => h (hcut.append [c])
    · exact Nat.lt_add_right _ Nat.one_pos
    · rintro rfl
      cases t with
      | nil =>
        -- Behind the first text a break may not go on.
        rw [List.append_nil]
        exact decide_eq_false fun hs => h ⟨hs, rfl⟩
      | cons d t =>
        unfold Cursor.behind
        rw [List.getLast?_append, List.getLast?_cons]
        rfl

/-! ## Tokens of the second text -/

variable (front : List Char)

/-- An attribute of a text that stands behind `front`. -/
def Attribute.shift (a : Attribute) : Attribute := { a with position := a.position.shift front }

def TokenKind.shift : TokenKind → TokenKind
  | .openTag name attributes => .openTag name (attributes.map (Attribute.shift front))
  | .selfClosingTag name attributes => .selfClosingTag name (attributes.map (Attribute.shift front))
  | .closeTag name => .closeTag name
  | .comment body => .comment body
  | .declaration body => .declaration body
  | .text content cdata => .text content cdata

def Token.shift (t : Token) : Token := ⟨t.kind.shift front, t.position.shift front⟩

def SyntaxError.shift (e : SyntaxError) : SyntaxError := { e with position := e.position.shift front }

def TokenItem.shift : TokenItem → TokenItem
  | .ok t => .ok (t.shift front)
  | .error e => .error (e.shift front)

variable {front}

/-- Where a break is cut in two depends on the character behind the cut only. -/
theorem not_cutsBreak_left {s t : List Char} (h : ¬ CutsBreak front (s ++ t)) : ¬ CutsBreak front s :=
  fun hcut => h (hcut.append t)

theorem WrittenAttribute.placed_append {s : List Char} {attributes : List WrittenAttribute}
    (h : ¬ CutsBreak front (s ++ attributes.flatMap text)) :
    placed (.behind (front ++ s)) attributes = (placed (.behind s) attributes).map (Attribute.shift front) := by
  induction attributes generalizing s with
  | nil => rfl
  | cons a attributes ih =>
    rw [List.flatMap_cons, ← List.append_assoc] at h
    have hgap : ¬ CutsBreak front (s ++ a.gap) := by
      apply not_cutsBreak_left (t := a.name ++ a.assignment)
      simpa only [text, List.append_assoc] using not_cutsBreak_left h
    have hplace : Position.behind (front ++ (s ++ a.gap)) = _ := Position.behind_append hgap
    simp only [placed, Cursor.readAll_behind, List.map_cons, List.append_assoc front]
    rw [ih h]
    exact congrArg (fun place => (⟨.ofList a.name, .ofList a.value, place⟩ : Attribute) :: _) hplace

namespace Lexeme

theorem kind_append {s : List Char} {l : Lexeme} (h : ¬ CutsBreak front (s ++ l.text)) :
    l.kind (.behind (front ++ s)) = (l.kind (.behind s)).shift front := by
  cases l with
  | tag name attributes gap selfClosing =>
    have hattributes : ¬ CutsBreak front ((s ++ '<' :: name) ++ attributes.flatMap WrittenAttribute.text) := by
      apply not_cutsBreak_left (t := gap ++ if selfClosing then ['/', '>'] else ['>'])
      simpa [text] using h
    have hplaced := WrittenAttribute.placed_append hattributes
    rw [← List.append_assoc] at hplaced
    cases selfClosing with
    | true =>
      simp only [kind, WrittenAttribute.place_eq, Cursor.readAll_behind, hplaced, if_true]
      rfl
    | false =>
      simp only [kind, WrittenAttribute.place_eq, Cursor.readAll_behind, hplaced, if_false, Bool.false_eq_true]
      rfl
  | _ => rfl

theorem token_append {s : List Char} {l : Lexeme} (h : ¬ CutsBreak front (s ++ l.text)) :
    l.token (.behind (front ++ s)) = (l.token (.behind s)).shift front := by
  unfold token Token.shift
  rw [kind_append h]
  exact congrArg _ (Position.behind_append (not_cutsBreak_left h))

theorem tokens_behind_append {s : List Char} {lexemes : List Lexeme}
    (h : ¬ CutsBreak front (s ++ lexemes.flatMap text)) :
    tokens (.behind (front ++ s)) lexemes = (tokens (.behind s) lexemes).map (Token.shift front) := by
  induction lexemes generalizing s with
  | nil => rfl
  | cons l lexemes ih =>
    rw [List.flatMap_cons, ← List.append_assoc] at h
    simp only [tokens, Cursor.readAll_behind, List.map_cons, List.append_assoc front]
    rw [token_append (not_cutsBreak_left h), ih h]

/-! ## Tiling both texts -/

theorem Tiles.trans {source mid rest : List Char} {xs ys : List Lexeme} (h : Tiles source xs mid)
    (h' : Tiles mid ys rest) : Tiles source (xs ++ ys) rest := by
  induction h with
  | nil => exact h'
  | cons hl hr _ ih => exact .cons hl hr (ih h')

/-- What tiles a text goes on to tile it when a text follows before which the last of the tiles may stand. -/
theorem Tiles.before {source t : List Char} {lexemes : List Lexeme} (h : Tiles source lexemes [])
    (ht : ∀ l ∈ lexemes.getLast?, l.EndsBefore t) : Tiles (source ++ t) lexemes t := by
  generalize hnil : [] = left at h
  induction h with
  | nil =>
    subst hnil
    exact .nil
  | @cons l lexemes text rest hl hr htiles ih =>
    subst hnil
    rw [List.append_assoc]
    cases htiles with
    | nil => exact .cons hl (ht l rfl) .nil
    | @cons m lexemes text rest hm hr' htiles =>
      apply Tiles.cons hl
      · intro hd c hc
        apply hr hd
        obtain ⟨d, more, hcons⟩ := List.exists_cons_of_ne_nil (text_ne_nil hm)
        simpa [hcons] using hc
      · apply ih _ rfl
        simpa using ht

/-- The last token is that of the last lexeme. -/
theorem getLast?_tokens (k : Cursor) {lexemes : List Lexeme} {l : Lexeme} (h : lexemes.getLast? = some l) :
    ∃ k', (tokens k lexemes).getLast? = some (l.token k') := by
  obtain ⟨before, rfl⟩ := List.getLast?_eq_some_iff.1 h
  refine ⟨k.readAll (before.flatMap text), ?_⟩
  rw [tokens_append]
  exact List.getLast?_concat

end Lexeme

/-- A fault in the second text is an error as far behind the first. -/
theorem Fault.error_append {s rest : List Char} {fault : Fault} (hf : Lexeme.read rest = .error fault)
    (h : ¬ CutsBreak front (s ++ rest)) :
    fault.error (.behind (front ++ s)) rest = (fault.error (.behind s) rest).shift front := by
  obtain ⟨passed, rfl, -⟩ := Lexeme.fault_of_read hf
  rw [← List.append_assoc] at h
  rw [error_eq, error_eq, Cursor.readAll_behind, Cursor.readAll_behind, List.append_assoc]
  exact congrArg (fun place => (⟨place, fault.cause.message⟩ : SyntaxError))
    (Position.behind_append (not_cutsBreak_left h))

/-- Whether a token is character data outside any section. -/
def Token.isPlainText (t : Token) : Bool :=
  match t.kind with
  | .text _ false => true
  | _ => false

theorem Lexeme.isPlainText_token {l : Lexeme} (k : Cursor) (h : l.isData) : (l.token k).isPlainText := by
  cases l with
  | data => rfl
  | _ => cases h

namespace Lexeme

/-- Before the second text the last lexeme of the first may end. -/
theorem endsBefore_of_getLast? {s : String} {t : List Char} {lexemes : List Lexeme} (ht : Tiles s.toList lexemes [])
    (htokens : tokenize s = (tokens .start lexemes).map .ok)
    (h : t.head? = some '<' ∨ s = "" ∨
      ∃ token, (tokenize s).getLast? = some (.ok token) ∧ token.isPlainText = false) :
    ∀ l ∈ lexemes.getLast?, l.EndsBefore t := by
  intro l hl hd c hc
  rcases h with h | rfl | ⟨token, htoken, hplain⟩
  · exact Option.some.inj (hc.symm.trans h)
  · obtain rfl := (ht.unique noneAt_nil .nil noneAt_nil).1
    cases hl
  · obtain ⟨k, hk⟩ := getLast?_tokens .start hl
    rw [htokens, List.getLast?_map, hk] at htoken
    obtain rfl := Except.ok.inj (Option.some.inj htoken)
    rw [isPlainText_token k hd] at hplain
    cases hplain

end Lexeme

/-- Behind the tiles at the front of a text it is read as if it began there, and what is read is shifted by them. -/
theorem Lexeme.tokenizeFrom_of_tiles_append {source t : List Char} {lexemes : List Lexeme} (h : Tiles source lexemes t) :
    tokenizeFrom .start source = (tokens .start lexemes).map .ok ++
      (tokenizeFrom .start t).map (TokenItem.shift (lexemes.flatMap text)) := by
  have hcut : ¬ CutsBreak (lexemes.flatMap text) t := h.not_cutsBreak [] nofun
  have hsecond (more : List Lexeme) (hmore : ¬ CutsBreak (lexemes.flatMap text) (more.flatMap text)) :
      (tokens .start (lexemes ++ more)).map Except.ok = (tokens .start lexemes).map Except.ok ++
        ((tokens .start more).map Except.ok).map (TokenItem.shift (lexemes.flatMap text)) := by
    have hshift := @tokens_behind_append (lexemes.flatMap text) [] more hmore
    rw [List.append_nil, Cursor.behind_nil] at hshift
    rw [tokens_append, Cursor.readAll_start, hshift, List.map_append, List.map_map, List.map_map]
    rfl
  rcases tiles_cases t with ⟨more, hmore⟩ | ⟨more, rest, fault, hmore, hf, -⟩
  · rw [hmore.text_eq] at hcut
    rw [tokenizeFrom_of_tiles (h.trans hmore), tokenizeFrom_of_tiles hmore]
    exact hsecond more (not_cutsBreak_left hcut)
  · rw [hmore.text_eq] at hcut
    have herror := @Fault.error_append (lexemes.flatMap text) (more.flatMap text) rest fault hf hcut
    rw [← Cursor.readAll_start, ← Cursor.readAll_start] at herror
    rw [tokenizeFrom_of_fault (h.trans hmore) hf, tokenizeFrom_of_fault hmore hf, hsecond more (not_cutsBreak_left hcut),
      List.flatMap_append, herror, List.map_append, List.append_assoc]
    rfl

/-- Of a text that is read to its end and a text behind it, before which its last token may end, the tokens are those
of the first, and then those of the second and its error, shifted by the first. -/
theorem tokenize_append {s t : String} (hs : ∀ item ∈ tokenize s, ∃ token, item = .ok token)
    (h : t.toList.head? = some '<' ∨ s = "" ∨
      ∃ token, (tokenize s).getLast? = some (.ok token) ∧ token.isPlainText = false) :
    tokenize (s ++ t) = tokenize s ++ (tokenize t).map (TokenItem.shift s.toList) := by
  obtain ⟨lexemes, htiles, htokens⟩ := Lexeme.tiles_of_tokenize hs
  have hboth := htiles.before (Lexeme.endsBefore_of_getLast? htiles htokens h)
  have htext : lexemes.flatMap Lexeme.text = s.toList := by
    rw [htiles.text_eq, List.append_nil]
  rw [htokens, ← htext, tokenize, tokenize, String.toList_append]
  exact Lexeme.tokenizeFrom_of_tiles_append hboth

/-- Behind a line that has begun, what stood in the first line of the second text is moved to the right. -/
theorem tokenize_append_two_lines : tokenize ("<a>\r\né" ++ "<b c='1'\n d='2'/>&") = [
    .ok ⟨.openTag "a" [], ⟨1, 1, 0⟩⟩,
    .ok ⟨.text "\r\né" false, ⟨1, 4, 3⟩⟩,
    .ok ⟨.selfClosingTag "b" [⟨"c", "1", ⟨2, 5, 10⟩⟩, ⟨"d", "2", ⟨3, 2, 17⟩⟩], ⟨2, 2, 7⟩⟩,
    .error ⟨⟨3, 9, 24⟩, (SyntaxCause.badReference .unterminated).message⟩] := by
  have hfirst : tokenize "<a>\r\né" =
      [.ok ⟨.openTag "a" [], ⟨1, 1, 0⟩⟩, .ok ⟨.text "\r\né" false, ⟨1, 4, 3⟩⟩] := by decide +kernel
  have hsecond : tokenize "<b c='1'\n d='2'/>&" = [
      .ok ⟨.selfClosingTag "b" [⟨"c", "1", ⟨1, 4, 3⟩⟩, ⟨"d", "2", ⟨2, 2, 10⟩⟩], ⟨1, 1, 0⟩⟩,
      .error ⟨⟨2, 9, 17⟩, (SyntaxCause.badReference .unterminated).message⟩] := by decide +kernel
  have hs : ∀ item ∈ tokenize "<a>\r\né", ∃ token, item = .ok token := by
    rw [hfirst]
    simp
  rw [tokenize_append hs (.inl rfl), hfirst, hsecond]
  decide +kernel

end TagLint
