import TagLint.Markup.Name
import TagLint.Markup.SyntaxCause
import TagLint.Text.Digits
/-!
# References

An ampersand in character data or in an attribute value begins a reference: the name of a predefined
entity, or the number of a character in decimal or hexadecimal digits, ended by a semicolon.
-/

namespace TagLint

namespace Reference

/-- The entities that need no declaration. -/
def predefined : List (List Char) :=
  [['a', 'm', 'p'], ['l', 't'], ['g', 't'], ['q', 'u', 'o', 't'], ['a', 'p', 'o', 's']]

/-- Whether digits write the number of a character. -/
def isCharacter (base : Nat) (digits : List Char) : Bool :=
  match Digits.word? base digits with
  | some n => decide n.isValidChar
  | none => false

/-- What is wrong with the text between `&` and `;`, if anything is. -/
def cause? (body : List Char) : Option ReferenceCause :=
  match body with
  | '#' :: 'x' :: digits =>
    if isCharacter 16 digits then none else some (.notACharacter (.ofList body))
  | '#' :: digits => if isCharacter 10 digits then none else some (.notACharacter (.ofList body))
  | _ => if predefined.contains body then none else some (.undefinedEntity (.ofList body))

/-- The characters that a reference is made of, as far as it can be told before its meaning is looked up. -/
def isBodyChar (c : Char) : Bool := c == '#' || isNameChar c

/-- Reads a reference from behind its ampersand: the text up to the semicolon, and what follows it. -/
def read (text : List Char) : Except ReferenceCause (List Char × List Char) :=
  match text.takeWhile isBodyChar, text.dropWhile isBodyChar with
  | c :: body, ';' :: rest =>
    match cause? (c :: body) with
    | some cause => .error cause
    | none => .ok (c :: body, rest)
  | _, _ => .error .unterminated

theorem read_eq {text body rest : List Char} (h : read text = .ok (body, rest)) :
    text = body ++ ';' :: rest := by
  have split := List.takeWhile_append_dropWhile (p := isBodyChar) (l := text)
  unfold read at h
  split at h
  next c b r hb hr =>
    split at h
    next => simp at h
    next =>
      obtain ⟨rfl, rfl⟩ : c :: b = body ∧ r = rest := by simpa using h
      rw [← hb, ← hr, split]
  next => simp at h

/-- The first ampersand of a text that begins no reference, as the text from there on, with the cause. -/
def firstFault : List Char → Option (List Char × ReferenceCause)
  | [] => none
  | c :: text =>
    if c = '&' then
      match _ : read text with
      | .ok (_, rest) => firstFault rest
      | .error cause => some (c :: text, cause)
    else firstFault text
termination_by text => text.length
decreasing_by
  · have := congrArg List.length (read_eq ‹read text = _›)
    simp at this ⊢
    omega
  · simp

end Reference

end TagLint
