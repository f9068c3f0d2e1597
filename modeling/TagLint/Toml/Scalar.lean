import TagLint.Text.Digits
import TagLint.Toml.Space
/-!
# TOML scalars

A value that is no string, array or table is a word: a truth value, a number, a date or a time. Underscores
may stand between the digits of a number; dates must be in the calendar, and the seconds of a time may be
left out. Space parts a word from the next thing unless another word follows it, which belongs to a value
only as the time behind a date.
-/

namespace TagLint.Toml

/-! ## Numbers -/

/-- Digits with single underscores between them. -/
def isDigits (digit : Char → Bool) : List Char → Bool
  | [] => false
  | [c] => digit c
  | c :: '_' :: rest => digit c && isDigits digit rest
  | c :: rest => digit c && isDigits digit rest

/-- Whether each underscore of a word stands between digits; `behindDigit` tells whether the word itself
stands behind one. -/
def isSeparated (digit : Char → Bool) : (behindDigit : Bool) → List Char → Bool
  | _, [] => true
  | _, ['_'] => false
  | behindDigit, '_' :: c :: word => behindDigit && digit c && isSeparated digit true word
  | _, c :: word => isSeparated digit (digit c) word

/-- Whether a word has digits, and nothing else but underscores. -/
def isDigitRun (word : List Char) : Bool :=
  word.any Char.isDigit && word.all fun c => c.isDigit || c == '_'

/-- Whether a word is empty or an exponent. -/
def isExponent? : List Char → Bool
  | [] => true
  | c :: word =>
    (c == 'e' || c == 'E') &&
      match word with
      | '+' :: digits | '-' :: digits => isDigitRun digits
      | digits => isDigitRun digits

/-- Whether a word without a sign is a number with a fraction or an exponent. -/
def isFraction (word : List Char) : Bool :=
  let isPart := fun c : Char => c.isDigit || c == '_'
  let whole := word.takeWhile isPart
  isDigitRun whole && (word.head? != some '0' || whole.countP Char.isDigit == 1) &&
    isSeparated Char.isDigit false word &&
    match word.dropWhile isPart with
    | '.' :: rest => isDigitRun (rest.takeWhile isPart) && isExponent? (rest.dropWhile isPart)
    | rest => isExponent? rest

/-- Whether a word without a sign is a decimal number, which has no needless zeros in front. A whole number
with underscores is told by its first digits and by the hexadecimal digits around each underscore: what it
is worth is never asked, as no setting is a number. -/
def isDecimal (word : List Char) : Bool :=
  let tail := word.dropWhile Char.isDigit
  if tail.isEmpty then word == ['0'] || (!word.isEmpty && word.head? != some '0')
  else if tail.contains ' ' then false
  else if tail.any fun c => c == '.' || c == 'e' || c == 'E' then isFraction word
  else tail.head? == some '_' && word.head? != some '0' && isSeparated (Digits.isDigit 16) false word

/-- Whether a word is a decimal number or one of the special numbers, behind a sign. -/
def isSigned (word : List Char) : Bool := word == ['i', 'n', 'f'] || word == ['n', 'a', 'n'] || isDecimal word

/-- Whether the digits behind a mark of their base are fit for it. There need not be any. -/
def isBased (digit : Char → Bool) (digits : List Char) : Bool := digits.isEmpty || isDigits digit digits

/-- Whether a word is a number. -/
def isNumber (word : List Char) : Bool :=
  match word with
  | '+' :: word | '-' :: word => isSigned word
  | '0' :: 'x' :: digits => isBased (Digits.isDigit 16) digits
  | '0' :: 'o' :: digits => isBased (Digits.isDigit 8) digits
  | '0' :: 'b' :: digits => isBased (Digits.isDigit 2) digits
  | word => isSigned word

/-! ## Dates and times -/

/-- The number that decimal digits write. -/
def decimalValue (digits : List Char) : Nat :=
  digits.foldl (fun n c => n * 10 + (c.toNat - '0'.toNat)) 0

/-- Reads a number of a fixed count of decimal digits. -/
def readNumber (count : Nat) (word : List Char) : Reading Nat :=
  let digits := word.take count
  if digits.length = count ∧ digits.all Char.isDigit then some (decimalValue digits, word.drop count)
  else none

/-- Reads a given character. -/
def readChar (c : Char) : List Char → Option (List Char)
  | d :: rest => if c = d then some rest else none
  | [] => none

/-- How many days a month has. -/
def daysInMonth (year month : Nat) : Nat :=
  if month = 2 then if year % 4 = 0 ∧ (year % 100 ≠ 0 ∨ year % 400 = 0) then 29 else 28
  else if month = 4 ∨ month = 6 ∨ month = 9 ∨ month = 11 then 30
  else 31

/-- What follows a date at the front of a word. -/
def afterDate? (word : List Char) : Option (List Char) := do
  let (year, rest) ← readNumber 4 word
  let rest ← readChar '-' rest
  let (month, rest) ← readNumber 2 rest
  let rest ← readChar '-' rest
  let (day, rest) ← readNumber 2 rest
  if 1 ≤ month ∧ month ≤ 12 ∧ 1 ≤ day ∧ day ≤ daysInMonth year month then some rest else none

/-- What follows hours and minutes at the front of a word. -/
def afterMinutes? (word : List Char) : Option (List Char) := do
  let (hour, rest) ← readNumber 2 word
  let rest ← readChar ':' rest
  let (minute, rest) ← readNumber 2 rest
  if hour ≤ 23 ∧ minute ≤ 59 then some rest else none

/-- What follows a time at the front of a word. -/
def afterTime? (word : List Char) : Option (List Char) := do
  let rest ← afterMinutes? word
  match rest with
  | ':' :: rest =>
    let (second, rest) ← readNumber 2 rest
    if second ≤ 60 then
      match rest with
      | '.' :: c :: rest => if c.isDigit then some (rest.dropWhile Char.isDigit) else none
      | _ => some rest
    else none
  | _ => some rest

/-- Whether a word is the offset of a time from universal time. -/
def isOffset : List Char → Bool
  | ['Z'] | ['z'] => true
  | '+' :: word | '-' :: word => afterMinutes? word == some []
  | _ => false

/-- Whether a word is a date, a time, or both, the two joined by a letter or a space. -/
def isDateTime (word : List Char) : Bool :=
  match afterDate? word with
  | some [] => true
  | some (c :: rest) =>
    (c == 'T' || c == 't' || c == ' ') &&
      match afterTime? rest with
      | some [] => true
      | some offset => isOffset offset
      | none => false
  | none => afterTime? word == some []

/-! ## Words -/

/-- The characters of words, which are all that do not part one thing from the next. -/
def isWordChar (c : Char) : Bool :=
  c ∉ ['=', ',', '[', ']', '\x7b', '\x7d', '#', ' ', '\t', '\r', '\n']

/-- Whether a character goes on with a word, or begins another one behind the given space. -/
def goesOn (space : List Char) (c : Char) : Bool :=
  isWordChar c && (space.isEmpty || c ∉ ['.', '\'', '"'])

/-- Takes words and the space between them off a text; `word` holds what was taken so far and `space` the
space behind it, both last first. -/
def readWordFrom (word space : List Char) : List Char → List Char × List Char
  | [] => (word.reverse, space.reverse)
  | c :: text =>
    if isSpace c then readWordFrom word (c :: space) text
    else if goesOn space c then readWordFrom (c :: (space ++ word)) [] text
    else (word.reverse, space.reverse ++ c :: text)

/-- Reads a truth value, a number, a date or a time. -/
def readWord (text : List Char) : Reading Value :=
  let (word, rest) := readWordFrom [] [] text
  if word = ['t', 'r', 'u', 'e'] then some (.boolean true, rest)
  else if word = ['f', 'a', 'l', 's', 'e'] then some (.boolean false, rest)
  else if isNumber word || isDateTime word then some (.scalar (.ofList word), rest)
  else none

end TagLint.Toml
