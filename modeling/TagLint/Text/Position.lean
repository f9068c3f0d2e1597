/-!
# Positions in a text

A position counts lines and columns from 1, and bytes from 0. A line ends at a line feed, at a carriage
return, or at a carriage return followed by a line feed, which together are one break. Reading is a left
fold over the characters, so what is read in two parts ends where the whole ends (`Cursor.readAll_append`).
-/

namespace TagLint

/-- A place in a text: columns count characters, offsets count the bytes of the UTF-8 encoding. -/
structure Position where
  line : Nat
  column : Nat
  offset : Nat
deriving DecidableEq

/-- The place of the first character of a text. -/
def Position.start : Position := ⟨1, 1, 0⟩

/-- A position as reports write it, `line:column`. -/
def Position.display (p : Position) : String := s!"{p.line}:{p.column}"

/-- A place in a text being read, with what decides whether a line feed there ends a line of its own. -/
structure Cursor where
  position : Position
  /-- The character before the place is a carriage return, so a line feed there belongs to it. -/
  afterReturn : Bool
deriving DecidableEq

namespace Cursor

/-- The cursor before the first character of a text. -/
def start : Cursor := ⟨.start, false⟩

/-- Moves over one character. A line ends with its carriage return or else with its line feed. -/
def read (k : Cursor) (c : Char) : Cursor :=
  let offset := k.position.offset + c.utf8Size
  if c = '\r' then ⟨⟨k.position.line + 1, 1, offset⟩, true⟩
  else if c = '\n' then
    if k.afterReturn then ⟨⟨k.position.line, k.position.column, offset⟩, false⟩
    else ⟨⟨k.position.line + 1, 1, offset⟩, false⟩
  else ⟨⟨k.position.line, k.position.column + 1, offset⟩, false⟩

/-- Moves over a text. -/
def readAll (k : Cursor) (text : List Char) : Cursor := text.foldl read k

theorem readAll_nil (k : Cursor) : k.readAll [] = k := rfl

theorem readAll_cons (k : Cursor) (c : Char) (text : List Char) :
    k.readAll (c :: text) = (k.read c).readAll text := rfl

theorem readAll_append (k : Cursor) (s t : List Char) : k.readAll (s ++ t) = (k.readAll s).readAll t :=
  List.foldl_append

end Cursor

end TagLint
