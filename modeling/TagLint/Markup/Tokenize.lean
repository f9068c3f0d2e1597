import TagLint.Markup.Lexeme.Read
import TagLint.Markup.Token
/-!
# From text to tokens

The tokens of a text are its lexemes, each placed where its characters begin. A fault becomes one error
behind the tokens, and nothing follows it.
-/

namespace TagLint

/-- One thing that a token stream yields. -/
abbrev TokenItem := Except SyntaxError Token

namespace WrittenAttribute

/-- Places attributes behind a cursor, after those that `before` holds last first. -/
def place (k : Cursor) (before : List Attribute) : List WrittenAttribute → List Attribute
  | [] => before.reverse
  | a :: rest =>
    let here := k.readAll a.gap
    place (here.readAll (a.name ++ a.assignment)) (⟨.ofList a.name, .ofList a.value, here.position⟩ :: before)
      rest

end WrittenAttribute

namespace Lexeme

/-- The meaning of a lexeme that begins at a cursor. -/
def kind (k : Cursor) (l : Lexeme) : TokenKind :=
  match l with
  | .data text => .text (.ofList text) false
  | .cdata body => .text (.ofList body) true
  | .comment body => .comment (.ofList body)
  | .instruction _ | .declaration _ => .declaration (.ofList l.text)
  | .closeTag name _ => .closeTag (.ofList name)
  | .tag name attributes _ selfClosing =>
    let placed := WrittenAttribute.place (k.readAll ('<' :: name)) [] attributes
    if selfClosing then .selfClosingTag (.ofList name) placed else .openTag (.ofList name) placed

/-- The token of a lexeme that begins at a cursor. -/
def token (k : Cursor) (l : Lexeme) : Token := ⟨l.kind k, k.position⟩

/-- Places lexemes behind a cursor, after the items that `before` holds last first, and moves over them. -/
def place (k : Cursor) (before : List TokenItem) : List Lexeme → Cursor × List TokenItem
  | [] => (k, before)
  | l :: rest => place (k.readAll l.text) (.ok (l.token k) :: before) rest

end Lexeme

/-- The error of a fault that was found reading `source` from a cursor on. -/
def Fault.error (k : Cursor) (source : List Char) (fault : Fault) : SyntaxError :=
  ⟨(k.readAll (source.take (source.length - fault.rest.length))).position, fault.cause.message⟩

/-- The tokens of a text from a cursor on, and the error that ends them, if one does. -/
def tokenizeFrom (k : Cursor) (text : List Char) : List TokenItem :=
  let (lexemes, rest, fault?) := Lexeme.readAll text
  let (final, items) := Lexeme.place k [] lexemes
  match fault? with
  | none => items.reverse
  | some fault => (.error (fault.error final rest) :: items).reverse

/-- The tokens of a text, and the error that ends them, if one does. -/
def tokenize (text : String) : List TokenItem := tokenizeFrom .start text.toList

end TagLint
