import TagLint.Pattern.Flags
import TagLint.Text.Digits
/-!
# The atoms of patterns

An atom is a single character of a pattern or an escape. How it is written is settled before what it asks
for: `readEscape` gives the faults of the first kind, `Atom.fault?` those of the second.
-/

namespace TagLint.Pattern

/-- What a character or an escape of a pattern stands for. -/
inductive Atom where
  | character (c : Char)
  /-- Two hexadecimal digits, which are a byte where characters are bytes. -/
  | code (c : Char)
  | any
  /-- A place, such as the end of a line. -/
  | place
  /-- Digits, blanks or the characters of words. -/
  | family (negated : Bool)
  /-- The characters with a property. -/
  | property (name : List Char)
deriving DecidableEq

namespace Atom

/-- The character that an atom stands for, if it is only one. -/
def character? : Atom → Option Char
  | character c | code c => some c
  | _ => none

/-- The name of a property as it is looked up: in lower case, without the word `is` in front of it, and without
spaces, hyphens, underscores and characters that are not ASCII. -/
def normalName (name : List Char) : List Char :=
  let name := match name with
    | i :: s :: rest => if i.toLower = 'i' ∧ s.toLower = 's' then rest else name
    | _ => name
  (name.filter fun c => c ≤ '\x7F' && c != ' ' && c != '_' && c != '-').map Char.toLower

/-- What is wrong with the name of a property. None is known; three names are looked up as values of one. -/
def propertyFault (name : List Char) : PatternFault :=
  if normalName name ∈ [['c', 'f'], ['s', 'c'], ['l', 'c']] then .unknownPropertyValue else .unknownProperty

/-- Why an atom cannot be matched; `inSet` tells whether it is a member of a set. The case variants of members
are looked for when the set is complete. -/
def fault? (f : Flags) (inSet : Bool) : Atom → Option PatternFault
  | character c =>
    if f.unicode then if f.ignoreCase && !inSet then some .unknownCaseVariants else none
    else if inSet && '\x7F' < c then some .unicodeDisabled
    else none
  | code c =>
    if f.unicode then if f.ignoreCase && !inSet then some .unknownCaseVariants else none
    else if '\x7F' < c then some .invalidUtf8
    else none
  | any => if f.unicode then none else some .invalidUtf8
  | place => none
  | family negated =>
    if f.unicode then some .unknownClass else if negated then some .invalidUtf8 else none
  | property name => some (if f.unicode then propertyFault name else .unicodeDisabled)

end Atom

/-! ## Escapes -/

/-- Reads hexadecimal digits of a fixed count; `read` holds those so far, last first. -/
def readHexDigits (f : Flags) : (count : Nat) → (read : List Char) → List Char → Checked (List Char × List Char)
  | 0, read, text => return (read.reverse, text)
  | _ + 1, _, [] => throw .unfinishedEscape
  | count + 1, read, c :: text =>
    if Digits.isDigit 16 c then readHexDigits f count (c :: read) (f.skip text) else throw .invalidHexDigit

/-- The character whose number hexadecimal digits write. -/
def ofHexDigits (digits : List Char) : Checked Char :=
  match Digits.number? 16 digits with
  | none => throw .emptyHexNumber
  | some n => if n.isValidChar then return Char.ofNat n else throw .invalidHexNumber

/-- Reads the digits behind the letter of a hexadecimal escape: as many as the letter asks for, or any number
between braces. -/
def readHex (f : Flags) (count : Nat) (text : List Char) : Checked (Atom × List Char) :=
  match f.skip text with
  | [] => throw .unfinishedEscape
  | '\x7b' :: text =>
    match f.take (Digits.isDigit 16) (f.skip text) with
    | (_, []) => throw .unfinishedEscape
    | (digits, '\x7d' :: rest) => return (.character (← ofHexDigits digits), f.skip rest)
    | _ => throw .invalidHexDigit
  | text => do
    let (digits, rest) ← readHexDigits f count [] text
    let c ← ofHexDigits digits
    return (if count = 2 then .code c else .character c, rest)

/-- Reads the name of a property, a letter or a word between braces. -/
def readProperty (f : Flags) (text : List Char) : Checked (Atom × List Char) :=
  match f.skip text with
  | [] => throw .unfinishedEscape
  | '\x7b' :: text =>
    match f.take (· ≠ '\x7d') (f.skip text) with
    | (_, []) => throw .unfinishedEscape
    | (name, _ :: rest) => return (.property name, rest)
  | '\\' :: _ => throw .invalidPropertyLetter
  | c :: rest => return (.property [c], f.skip rest)

/-- Passes over the kind of a word boundary between braces, if one stands there and no count. -/
def skipBoundary (f : Flags) (text : List Char) : Checked (List Char) :=
  match text with
  | '\x7b' :: inside =>
    match f.skip inside with
    | [] => throw .unfinishedBoundary
    | inside =>
      match f.take (fun c => c.isAlpha || c == '-') inside with
      | ([], _) => return text
      | (kind, '\x7d' :: rest) =>
        if String.ofList kind ∈ ["start", "end", "start-half", "end-half"] then return rest
        else throw .unknownBoundary
      | _ => throw .unclosedBoundary
  | _ => return text

/-- The character that a letter stands for behind a backslash. -/
def control? : Char → Option Char
  | 'a' => some '\x07'
  | 'f' => some '\x0C'
  | 't' => some '\t'
  | 'n' => some '\n'
  | 'r' => some '\r'
  | 'v' => some '\x0B'
  | _ => none

/-- Reads an escape from behind its backslash. All ASCII characters but letters, digits and angle brackets
stand for themselves. -/
def readEscape (f : Flags) : List Char → Checked (Atom × List Char)
  | [] => throw .unfinishedEscape
  | 'x' :: text => readHex f 2 text
  | 'u' :: text => readHex f 4 text
  | 'U' :: text => readHex f 8 text
  | 'p' :: text | 'P' :: text => readProperty f text
  | 'b' :: text => return (.place, ← skipBoundary f text)
  | c :: text =>
    if c.isDigit then throw .backreference
    else if ['d', 's', 'w'].contains c.toLower then return (.family c.isUpper, text)
    else if ['A', 'z', 'B', '<', '>'].contains c then return (.place, text)
    else if c ≤ '\x7F' ∧ ¬c.isAlpha then return (.character c, text)
    else
      match control? c with
      | some d => return (.character d, text)
      | none => throw .unknownEscape

end TagLint.Pattern
