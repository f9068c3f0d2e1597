import TagLint.Pattern.Flags
import TagLint.Text.Alphabetic
import TagLint.Text.Numeric
import TagLint.Text.Split
/-!
# Groups

What stands behind an opening parenthesis says whether a group begins there, under which name and flags, or
whether flags are set for what follows.
-/

namespace TagLint.Pattern

/-- Whether a character may begin the name of a group. -/
def isGroupNameStart (c : Char) : Bool := c == '_' || if c ≤ '\x7F' then c.isAlpha else isAlphabetic c

/-- Whether a character may follow the first one of the name of a group. -/
def isGroupNameChar (c : Char) : Bool :=
  c == '_' || c == '.' || c == '[' || c == ']' ||
    if c ≤ '\x7F' then c.isAlphanum else isAlphabetic c || isNumeric c

/-- Reads the name of a group up to the angle bracket behind it; `names` holds the names before it. -/
def readGroupName (names : List (List Char)) : List Char → Checked (List Char × List Char)
  | [] => throw .unclosedGroupName
  | '>' :: _ => throw .emptyGroupName
  | c :: text =>
    if isGroupNameStart c then
      let name := c :: text.takeWhile isGroupNameChar
      match text.dropWhile isGroupNameChar with
      | [] => throw .unclosedGroupName
      | '>' :: rest => if names.contains name then throw .repeatedGroupName else return (name, rest)
      | _ => throw .invalidGroupName
    else throw .invalidGroupName

/-- What an opening parenthesis begins. -/
inductive Opening where
  /-- A group, under a name or none, with the flags inside it. -/
  | group (name? : Option (List Char)) (flags : Flags)
  /-- No group: flags for what follows. -/
  | setting (flags : Flags)

/-- Reads flags from behind their question mark. -/
def readSetting (f : Flags) (text : List Char) : Checked (Opening × List Char) := do
  if text.isEmpty then throw .unclosedGroup
  let (letters, rest) ← readLettersFrom [] text
  match letters, rest with
  | [], ')' :: _ => throw .missingOperand
  | letters, ')' :: rest => return (.setting (f.apply letters), rest)
  | letters, rest => return (.group none (f.apply letters), rest.drop 1)

/-- Reads what stands behind an opening parenthesis. -/
def readOpening (f : Flags) (names : List (List Char)) (text : List Char) : Checked (Opening × List Char) :=
  match f.skip text with
  | '?' :: '=' :: _ | '?' :: '!' :: _ | '?' :: '<' :: '=' :: _ | '?' :: '<' :: '!' :: _ => throw .lookAround
  | '?' :: 'P' :: '<' :: text | '?' :: '<' :: text => do
    let (name, rest) ← readGroupName names text
    return (.group (some name) f, rest)
  | '?' :: text => readSetting f text
  | text => return (.group none f, text)

end TagLint.Pattern
