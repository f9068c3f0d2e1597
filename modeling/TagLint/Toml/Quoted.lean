import TagLint.Text.Digits
import TagLint.Toml.Space
/-!
# TOML strings

Strings stand between quotation marks, where a backslash begins an escape, or between apostrophes, where
every character is itself. Three marks begin a string of several lines, whose first line break is dropped
if nothing stands before it; up to two further marks at its end belong to the string. Fuel that exceeds the
length of the text is enough for every function here.
-/

namespace TagLint.Toml

/-- Reads a character written as a fixed count of hexadecimal digits, behind a number already read. -/
def readCode : (count read : Nat) → List Char → Reading Char
  | 0, read, text => if read.isValidChar then some (Char.ofNat read, text) else none
  | _ + 1, _, [] => none
  | count + 1, read, c :: text =>
    match Digits.value? 16 c with
    | some d => readCode count (read * 16 + d) text
    | none => none

/-- Reads an escape from behind its backslash. -/
def readEscape : List Char → Reading Char
  | 'b' :: text => some ('\x08', text)
  | 't' :: text => some ('\t', text)
  | 'n' :: text => some ('\n', text)
  | 'f' :: text => some ('\x0C', text)
  | 'r' :: text => some ('\r', text)
  | 'e' :: text => some ('\x1B', text)
  | '"' :: text => some ('"', text)
  | '\\' :: text => some ('\\', text)
  | 'x' :: text => readCode 2 0 text
  | 'u' :: text => readCode 4 0 text
  | 'U' :: text => readCode 8 0 text
  | _ => none

/-- Passes over a line break with the space before it and all space and line breaks behind it, which a
backslash at the end of a line takes out of a string. -/
def joinLines? (text : List Char) : Option (List Char) := (newline? (skipSpace text)).map skipSpaceLines

/-- How a string is written. -/
structure Quoting where
  mark : Char
  /-- A backslash begins an escape. -/
  escapes : Bool
  /-- Three marks begin and end the string, and it may hold line breaks. -/
  multiline : Bool

/-- Reads a string from behind its opening marks; `read` holds its characters so far, last first. Each
step takes at least one character off the text. -/
def readQuotedFrom (q : Quoting) : (fuel : Nat) → (read : List Char) → List Char → Reading String
  | 0, _, _ => none
  | _ + 1, _, [] => none
  | fuel + 1, read, c :: text =>
    if c = q.mark then
      if q.multiline then
        let marks := (c :: text).takeWhile (· == q.mark)
        let rest := (c :: text).dropWhile (· == q.mark)
        if marks.length < 3 then readQuotedFrom q fuel (marks ++ read) rest
        else
          let inside := min (marks.length - 3) 2
          some (.ofList (List.replicate inside q.mark ++ read).reverse, marks.drop (inside + 3) ++ rest)
      else some (.ofList read.reverse, text)
    else if c = '\\' ∧ q.escapes then
      match readEscape text, if q.multiline then joinLines? text else none with
      | some (d, rest), _ => readQuotedFrom q fuel (d :: read) rest
      | none, some rest => readQuotedFrom q fuel read rest
      | none, none => none
    else if isPrintable c then readQuotedFrom q fuel (c :: read) text
    else if c = '\n' ∧ q.multiline then readQuotedFrom q fuel (c :: read) text
    else if c = '\r' ∧ q.multiline then
      match text with
      | '\n' :: rest => readQuotedFrom q fuel ('\n' :: '\r' :: read) rest
      | _ => none
    else none

/-- Reads a string in a given quoting, from behind its opening marks. -/
def readQuoted (fuel : Nat) (q : Quoting) (text : List Char) : Reading String :=
  readQuotedFrom q fuel [] (if q.multiline then (newline? text).getD text else text)

/-- Reads a string of one line. -/
def readLineString (fuel : Nat) : List Char → Reading String
  | '"' :: text => readQuoted fuel ⟨'"', true, false⟩ text
  | '\'' :: text => readQuoted fuel ⟨'\'', false, false⟩ text
  | _ => none

/-- Reads a string. -/
def readString (fuel : Nat) : List Char → Reading String
  | '"' :: '"' :: '"' :: text => readQuoted fuel ⟨'"', true, true⟩ text
  | '\'' :: '\'' :: '\'' :: text => readQuoted fuel ⟨'\'', false, true⟩ text
  | text => readLineString fuel text

end TagLint.Toml
