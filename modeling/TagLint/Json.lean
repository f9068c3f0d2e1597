/-!
# JSON

Values of JSON, with natural numbers only, and their indented form: two spaces for each level, one item or
field in a line, and a space behind each colon. Strings escape quotes, backslashes and controls.
-/

namespace TagLint

inductive Json where
  | null
  | bool (value : Bool)
  | number (value : Nat)
  | string (value : String)
  | array (items : List Json)
  /-- The fields in the order in which they are printed. -/
  | object (fields : List (String × Json))

namespace Json

/-- The lower-case hexadecimal digit of a number below sixteen. -/
def hexDigit (n : Nat) : Char := if n < 10 then Char.ofNat (n + '0'.toNat) else Char.ofNat (n - 10 + 'a'.toNat)

/-- A character as it stands in a quoted string. -/
def escapeChar (c : Char) : List Char :=
  if c = '"' then ['\\', '"']
  else if c = '\\' then ['\\', '\\']
  else if c = '\x08' then ['\\', 'b']
  else if c = '\t' then ['\\', 't']
  else if c = '\n' then ['\\', 'n']
  else if c = '\x0C' then ['\\', 'f']
  else if c = '\r' then ['\\', 'r']
  else if c.toNat < 0x20 then ['\\', 'u', '0', '0', hexDigit (c.toNat / 16), hexDigit (c.toNat % 16)]
  else [c]

/-- A string in quotes. -/
def quote (s : String) : List Char := '"' :: s.toList.flatMap escapeChar ++ ['"']

/-- A line break and the space in front of a line at a level. -/
def newline (level : Nat) : List Char := '\n' :: List.replicate (2 * level) ' '

/-- Parts between brackets, each in a line of its own; without parts only the brackets. -/
def bracket (left right : Char) (level : Nat) (parts : List (List Char)) : List Char :=
  match parts with
  | [] => [left, right]
  | _ =>
    left :: newline (level + 1) ++ (',' :: newline (level + 1)).intercalate parts ++ newline level
      ++ [right]

/-- The indented form of a value that begins at a level. -/
def print (level : Nat) (value : Json) : List Char :=
  match value with
  | .null => ['n', 'u', 'l', 'l']
  | .bool true => ['t', 'r', 'u', 'e']
  | .bool false => ['f', 'a', 'l', 's', 'e']
  | .number value => (Nat.repr value).toList
  | .string value => quote value
  | .array items => bracket '[' ']' level (items.map fun item => print (level + 1) item)
  | .object fields =>
    bracket '\x7b' '\x7d' level
      (fields.map fun field => quote field.1 ++ ':' :: ' ' :: print (level + 1) field.2)
termination_by sizeOf value
decreasing_by
  · have := List.sizeOf_lt_of_mem ‹item ∈ items›
    simp
    omega
  · have := List.sizeOf_lt_of_mem ‹field ∈ fields›
    obtain ⟨key, value⟩ := field
    simp at this ⊢
    omega

/-- The indented form of a value as a text of its own. -/
def pretty (value : Json) : String := .ofList (print 0 value)

end Json

end TagLint
