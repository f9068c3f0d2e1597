import TagLint.Text.Split
import TagLint.Markup.Lexeme.Data
/-!
# Reading tags

Names, attributes and the two kinds of tags. Each reader keeps the spaces it passes, so nothing of the text
is lost (`readTag_eq`, `readCloseTag_eq`).
-/

namespace TagLint

/-! ## Attributes -/

/-- Reads the value of an attribute and its closing quote, from behind the quote that opens it. -/
def readValue (tag name : String) (quote : Char) (text : List Char) : Reading (List Char) :=
  if quote = '"' ∨ quote = '\'' then
    match readRun (fun c => c == quote || c == '<') text with
    | .error fault => .error fault
    | .ok (_, []) => .error ⟨quote :: text, .unterminatedValue tag name⟩
    | .ok (value, c :: rest) =>
      if c = quote then .ok (value, rest) else .error ⟨c :: rest, .angleInValue name⟩
  else .error ⟨quote :: text, .unquotedValue tag name⟩

theorem readValue_eq {tag name : String} {quote : Char} {text value rest : List Char}
    (h : readValue tag name quote text = .ok (value, rest)) : text = value ++ quote :: rest := by
  unfold readValue at h
  split at h
  next =>
    split at h
    next => simp at h
    next => simp at h
    next v c r hr =>
      split at h
      next hc =>
        obtain ⟨rfl, rfl⟩ : v = value ∧ r = rest := by simpa using h
        rw [readRun_eq hr, hc]
      next => simp at h
  next => simp at h

/-- Reads an attribute of a tag from its name on, `gap` being the space before the name. -/
def readAttribute (tag : String) (gap text : List Char) : Reading WrittenAttribute :=
  let name := text.takeWhile isNameChar
  let afterName := text.dropWhile isNameChar
  match afterName.dropWhile isSpace with
  | '=' :: afterEquals =>
    match afterEquals.dropWhile isSpace with
    | [] => .error ⟨text, .unterminatedTag tag⟩
    | quote :: inside =>
      match readValue tag (.ofList name) quote inside with
      | .error fault => .error fault
      | .ok (value, rest) =>
        .ok (⟨gap, name, afterName.takeWhile isSpace, afterEquals.takeWhile isSpace, quote, value⟩, rest)
  | _ => .error ⟨text, .missingValue tag (.ofList name)⟩

theorem readAttribute_eq {tag : String} {gap text rest : List Char} {a : WrittenAttribute}
    (h : readAttribute tag gap text = .ok (a, rest)) : gap ++ text = a.text ++ rest := by
  have split₁ := List.takeWhile_append_dropWhile (p := isNameChar) (l := text)
  have split₂ := List.takeWhile_append_dropWhile (p := isSpace) (l := text.dropWhile isNameChar)
  simp only [readAttribute] at h
  split at h
  next afterEquals hEquals =>
    have split₃ := List.takeWhile_append_dropWhile (p := isSpace) (l := afterEquals)
    split at h
    next => simp at h
    next quote inside hQuote =>
      split at h
      next => simp at h
      next value r hr =>
        simp only [Except.ok.injEq, Prod.mk.injEq] at h
        obtain ⟨rfl, rfl⟩ := h
        rw [hQuote, readValue_eq hr] at split₃
        rw [hEquals, ← split₃] at split₂
        rw [← split₂] at split₁
        conv => lhs; rw [← split₁]
        simp [WrittenAttribute.text, WrittenAttribute.assignment]
  next => simp at h

theorem length_lt_of_readAttribute {tag : String} {text rest left : List Char} {a : WrittenAttribute}
    (hrest : text.dropWhile isSpace = rest) (h : readAttribute tag (text.takeWhile isSpace) rest = .ok (a, left)) :
    left.length < text.length := by
  have hsplit := List.takeWhile_append_dropWhile (p := isSpace) (l := text)
  rw [hrest, readAttribute_eq h] at hsplit
  have hlength := congrArg List.length hsplit
  simp [WrittenAttribute.text, WrittenAttribute.assignment] at hlength
  omega

/-! ## Tags -/

/-- Checks that a name begins right behind the opener of a tag. -/
def checkName (opener : Opener) (text : List Char) : Except Fault Unit :=
  match text with
  | [] => .error ⟨text, .missingName opener⟩
  | c :: _ =>
    if isNameStart c then .ok ()
    else if isSpace c then .error ⟨text, .spaceBeforeName opener⟩
    else .error ⟨text, .invalidNameStart opener c⟩

/-- Reads a close tag from behind its opener; `source` is the text from the opener on. -/
def readCloseTag (source text : List Char) : Reading Lexeme :=
  match checkName .close text with
  | .error fault => .error fault
  | .ok () =>
    let name := text.takeWhile isNameChar
    let afterName := text.dropWhile isNameChar
    match afterName.dropWhile isSpace with
    | [] => .error ⟨source, .unterminatedCloseTag (.ofList name)⟩
    | c :: rest =>
      if c = '>' then .ok (.closeTag name (afterName.takeWhile isSpace), rest)
      else .error ⟨c :: rest, .unexpectedInCloseTag (.ofList name) c⟩

theorem readCloseTag_eq {source text rest : List Char} {l : Lexeme}
    (h : readCloseTag source text = .ok (l, rest)) : '<' :: '/' :: text = l.text ++ rest := by
  have split₁ := List.takeWhile_append_dropWhile (p := isNameChar) (l := text)
  have split₂ := List.takeWhile_append_dropWhile (p := isSpace) (l := text.dropWhile isNameChar)
  unfold readCloseTag at h
  split at h
  next => simp at h
  next =>
    simp only at h
    split at h
    next => simp at h
    next c r hr =>
      split at h
      next hc =>
        simp only [Except.ok.injEq, Prod.mk.injEq] at h
        obtain ⟨rfl, rfl⟩ := h
        rw [hr, hc] at split₂
        rw [← split₂] at split₁
        conv => lhs; rw [← split₁]
        simp [Lexeme.text]
      next => simp at h

/-- Reads the rest of a tag from behind its name or one of its attributes. `source` is the text from the
opener on, `read` holds the attributes before, last first. -/
def readTagRest (source name : List Char) (read : List WrittenAttribute) (text : List Char) : Reading Lexeme :=
  let tag := String.ofList name
  let gap := text.takeWhile isSpace
  match _ : text.dropWhile isSpace with
  | [] => .error ⟨source, .unterminatedTag tag⟩
  | c :: rest =>
    if c = '>' then .ok (.tag name read.reverse gap false, rest)
    else if c = '/' then
      match after? ['>'] rest with
      | some left => .ok (.tag name read.reverse gap true, left)
      | none => .error ⟨rest, .slashInTag tag⟩
    else if isNameStart c then
      if gap.isEmpty then .error ⟨c :: rest, .missingSpace tag⟩
      else
        match _ : readAttribute tag gap (c :: rest) with
        | .error fault => .error fault
        | .ok (a, left) =>
          if read.any (fun b => b.name == a.name) then
            .error ⟨c :: rest, .duplicateAttribute tag (.ofList a.name)⟩
          else readTagRest source name (a :: read) left
    else .error ⟨c :: rest, .unexpectedInTag tag c⟩
termination_by text.length
decreasing_by
  exact length_lt_of_readAttribute ‹text.dropWhile isSpace = _› ‹_ = Except.ok _›

theorem readTagRest_eq {source name : List Char} {read : List WrittenAttribute} {text rest : List Char}
    {l : Lexeme} (h : readTagRest source name read text = .ok (l, rest)) :
    '<' :: name ++ read.reverse.flatMap WrittenAttribute.text ++ text = l.text ++ rest := by
  fun_induction readTagRest source name read text with
  | case2 read text gap rest hText =>
    have split := List.takeWhile_append_dropWhile (p := isSpace) (l := text)
    simp only [Except.ok.injEq, Prod.mk.injEq] at h
    obtain ⟨rfl, rfl⟩ := h
    rw [hText] at split
    conv => lhs; rw [← split]
    simp [Lexeme.text, gap]
  | case3 read text gap behind left hLeft hText =>
    have split := List.takeWhile_append_dropWhile (p := isSpace) (l := text)
    simp only [Except.ok.injEq, Prod.mk.injEq] at h
    obtain ⟨rfl, rfl⟩ := h
    rw [hText, after?_eq_some_iff.1 hLeft] at split
    conv => lhs; rw [← split]
    simp [Lexeme.text, gap]
  | case8 read text tag gap c rest hText _ _ _ _ a left hRead _ ih =>
    have split := List.takeWhile_append_dropWhile (p := isSpace) (l := text)
    rw [hText, readAttribute_eq hRead] at split
    rw [← ih h, ← split]
    simp
  | _ => simp at h

/-- Reads an open tag from behind its opener; `source` is the text from the opener on. -/
def readTag (source text : List Char) : Reading Lexeme :=
  match checkName .start text with
  | .error fault => .error fault
  | .ok () => readTagRest source (text.takeWhile isNameChar) [] (text.dropWhile isNameChar)

theorem readTag_eq {source text rest : List Char} {l : Lexeme} (h : readTag source text = .ok (l, rest)) :
    '<' :: text = l.text ++ rest := by
  unfold readTag at h
  split at h
  next => simp at h
  next => simpa using readTagRest_eq h

end TagLint
