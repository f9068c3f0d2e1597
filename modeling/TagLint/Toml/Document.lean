import TagLint.Toml.Quoted
import TagLint.Toml.Scalar
import TagLint.Toml.Table
/-!
# Reading TOML documents

A document is a sequence of lines, each a key with its value or the header of a table. Arrays and tables
between braces may take several lines, broken anywhere but inside a key, and end with a comma. `parse`
gives the table that a document describes, and nothing if the document is not well-formed. Each loop takes
something off the text, so fuel that exceeds the length of the document is enough for all of them.
-/

namespace TagLint.Toml

/-! ## Keys -/

/-- The characters of keys without quotes. -/
def isKeyChar (c : Char) : Bool := c.isAlphanum || c == '_' || c == '-'

/-- Reads a part of a key. -/
def readKeyPart (fuel : Nat) (text : List Char) : Reading String :=
  match text.takeWhile isKeyChar with
  | [] => readLineString fuel text
  | part => some (.ofList part, text.dropWhile isKeyChar)

/-- Reads the parts of a key behind those that `before` holds last first, with the space around them. -/
def readKeyFrom : (fuel : Nat) → (before : List String) → List Char → Reading (List String)
  | 0, _, _ => none
  | fuel + 1, before, text =>
    match readKeyPart fuel (skipSpace text) with
    | none => none
    | some (part, rest) =>
      match skipSpace rest with
      | '.' :: rest => readKeyFrom fuel (part :: before) rest
      | rest => some ((part :: before).reverse, rest)

/-- How many arrays and tables a value may have around one another, and how many parts a key may have. -/
def maxDepth : Nat := 80

/-- Reads a key, parts with dots between them, with the space around it. -/
def readKey (fuel : Nat) (text : List Char) : Reading (List String) :=
  match readKeyFrom fuel [] text with
  | some (key, rest) => if key.length ≤ maxDepth then some (key, rest) else none
  | none => none

/-! ## Values -/

/-- Reads the items of an array from behind its bracket; `before` holds those read already, last first. -/
def readItems (readValue : List Char → Reading Value) : (fuel : Nat) → (before : List Value) → List Char →
    Reading (List Value)
  | 0, _, _ => none
  | fuel + 1, before, text =>
    match skipBlank text with
    | ']' :: rest => some (before.reverse, rest)
    | text =>
      match readValue text with
      | none => none
      | some (v, rest) =>
        match skipBlank rest with
        | ',' :: rest => readItems readValue fuel (v :: before) rest
        | ']' :: rest => some ((v :: before).reverse, rest)
        | _ => none

/-- Reads a key and its value; `skip` passes over what may stand around the equals sign. -/
def readKeyValue (skip : List Char → List Char) (readValue : List Char → Reading Value) (fuel : Nat)
    (text : List Char) : Reading (List String × Value) :=
  match readKey fuel text with
  | none => none
  | some (key, rest) =>
    match skip rest with
    | '=' :: rest => (readValue (skip rest)).map fun (v, rest) => ((key, v), rest)
    | _ => none

/-- Reads the entries of a table between braces from behind the first one. -/
def readEntries (readValue : List Char → Reading Value) : (fuel : Nat) → Entries → List Char → Reading Entries
  | 0, _, _ => none
  | fuel + 1, entries, text =>
    match skipBlank text with
    | '\x7d' :: rest => some (entries, rest)
    | text =>
      match readKeyValue skipBlank readValue fuel text with
      | none => none
      | some ((key, v), rest) =>
        match entries.define key v, skipBlank rest with
        | some entries, ',' :: rest => readEntries readValue fuel entries rest
        | some entries, '\x7d' :: rest => some (entries, rest)
        | _, _ => none

/-- Reads a value that holds no others: a string or a word. -/
def readSingle (fuel : Nat) (text : List Char) : Reading Value :=
  match text with
  | '"' :: _ | '\'' :: _ => (readString fuel text).map fun (s, rest) => (.string s, rest)
  | _ => readWord text

/-- Reads a value with at most `depth` arrays and tables around one another. -/
def readValue (fuel : Nat) : (depth : Nat) → List Char → Reading Value
  | 0, text => readSingle fuel text
  | depth + 1, text =>
    match text with
    | '[' :: rest => (readItems (readValue fuel depth) fuel [] rest).map fun (vs, rest) => (.array vs, rest)
    | '\x7b' :: rest =>
      (readEntries (readValue fuel depth) fuel [] rest).map fun (entries, rest) => (.table entries.toValues, rest)
    | _ => readSingle fuel text

/-! ## Documents -/

/-- What one line of a document says. -/
inductive Line where
  | blank
  | entry (key : List String) (v : Value)
  | header (path : List String)
  | arrayHeader (path : List String)

/-- Reads a line up to the space and comment at its end. -/
def readLine (fuel : Nat) (text : List Char) : Reading Line :=
  match skipSpace text with
  | [] => some (.blank, [])
  | '#' :: rest => some (.blank, '#' :: rest)
  | '\n' :: rest => some (.blank, '\n' :: rest)
  | '\r' :: rest => some (.blank, '\r' :: rest)
  | '[' :: '[' :: rest =>
    match readKey fuel rest with
    | some (path, ']' :: ']' :: rest) => some (.arrayHeader path, rest)
    | _ => none
  | '[' :: rest =>
    match readKey fuel rest with
    | some (path, ']' :: rest) => some (.header path, rest)
    | _ => none
  | text =>
    (readKeyValue skipSpace (readValue fuel maxDepth) fuel text).map fun ((key, v), rest) =>
      (.entry key v, rest)

/-- A document under construction: its entries, and the path of the last header. -/
structure Draft where
  entries : Entries
  header : List String

/-- Adds a line to a document. -/
def Draft.add (d : Draft) : Line → Option Draft
  | .blank => some d
  | .entry key v => (d.entries.defineBelow d.header key v).map (⟨·, d.header⟩)
  | .header path => (d.entries.openTable path).map (⟨·, path⟩)
  | .arrayHeader path => (d.entries.addTable path).map (⟨·, path⟩)

/-- Reads the lines of a document. -/
def readLines : (fuel : Nat) → Draft → List Char → Option Draft
  | 0, _, _ => none
  | fuel + 1, d, text => do
    let (line, rest) ← readLine fuel text
    let next ← d.add line
    match ← endLine? rest with
    | [] => some next
    | rest => readLines fuel next rest

/-- The table that a document describes. A byte order mark may stand before it. -/
def parse (text : List Char) : Option (List (String × Value)) :=
  let text := match text with
    | '\uFEFF' :: rest => rest
    | text => text
  (readLines (text.length + 2) ⟨[], []⟩ text).map fun d => d.entries.toValues

end TagLint.Toml
