import TagLint.Pattern.Fault
import TagLint.Text.Blank
/-!
# The flags of a pattern

Flags stand in a pattern and say how what follows them is read. In a verbose pattern blanks and comments may
stand between the characters of most constructs: `Flags.skip` passes over them, and loops that skip behind
each character end because nothing grows on the way, `length_skip_le`.
-/

namespace TagLint.Pattern

/-- What is found in a pattern that has no fault up to there. Readers give what they take off the front of a
pattern with the text behind it. -/
abbrev Checked := Except PatternFault

/-- How a part of a pattern is read. Flags that change neither what is well written nor what can be matched
are left out. -/
structure Flags where
  /-- Blanks do not count, and a number sign begins a comment. -/
  verbose : Bool
  /-- Characters match their case variants. -/
  ignoreCase : Bool
  /-- Characters are those of Unicode, not bytes. -/
  unicode : Bool
deriving DecidableEq

/-- The flags at the front of a pattern. -/
def Flags.initial : Flags := ⟨false, false, true⟩

/-- Passes over blanks and comments; `comment` tells whether the text begins inside a comment. -/
def skipFrom (comment : Bool) : List Char → List Char
  | [] => []
  | c :: text =>
    if comment then skipFrom (c != '\n') text
    else if isBlank c then skipFrom false text
    else if c = '#' then skipFrom true text
    else c :: text

theorem length_skipFrom_le (comment : Bool) (text : List Char) :
    (skipFrom comment text).length ≤ text.length := by
  induction text generalizing comment with
  | nil => simp [skipFrom]
  | cons c text ih =>
    simp only [skipFrom]
    split
    · exact Nat.le_succ_of_le (ih _)
    · split
      · exact Nat.le_succ_of_le (ih _)
      · split
        · exact Nat.le_succ_of_le (ih _)
        · exact Nat.le_refl _

namespace Flags

/-- Passes over what does not count. -/
def skip (f : Flags) (text : List Char) : List Char := if f.verbose then skipFrom false text else text

theorem length_skip_le (f : Flags) (text : List Char) : (f.skip text).length ≤ text.length := by
  unfold skip
  split
  · exact length_skipFrom_le false text
  · exact Nat.le_refl _

/-- Takes characters as long as they pass a test, and passes over what does not count behind each of them;
`taken` holds those so far, last first. -/
def takeFrom (f : Flags) (test : Char → Bool) (taken : List Char) : List Char → List Char × List Char
  | [] => (taken.reverse, [])
  | c :: text =>
    if test c then takeFrom f test (c :: taken) (f.skip text) else (taken.reverse, c :: text)
termination_by text => text.length
decreasing_by exact Nat.lt_succ_of_le (f.length_skip_le text)

/-- The characters at the front of a text that pass a test, and what follows them. -/
def take (f : Flags) (test : Char → Bool) (text : List Char) : List Char × List Char :=
  f.takeFrom test [] text

/-- The character behind a hyphen, by which it is told whether the hyphen makes a range. In a verbose pattern
blanks and the first number sign do not count unless nothing else follows. -/
def behindHyphen? (f : Flags) (text : List Char) : Option Char :=
  if f.verbose then
    let counted := match text.dropWhile isBlank with
      | '#' :: rest => rest.dropWhile isBlank
      | rest => rest
    counted.head?.or text.head?
  else text.head?

/-- Sets the flag that a letter stands for. -/
def set (value : Bool) (f : Flags) (letter : Char) : Flags :=
  match letter with
  | 'x' => { f with verbose := value }
  | 'i' => { f with ignoreCase := value }
  | 'u' => { f with unicode := value }
  | _ => f

/-- Sets the flags before a hyphen and clears those behind it. -/
def apply (f : Flags) (letters : List Char) : Flags :=
  (letters.dropWhile (· ≠ '-')).foldl (set false) ((letters.takeWhile (· ≠ '-')).foldl (set true) f)

end Flags

/-- Reads the letters of flags up to the mark behind them, which stays; `read` holds those so far, last
first. -/
def readLettersFrom (read : List Char) : List Char → Checked (List Char × List Char)
  | [] => throw .unfinishedFlags
  | c :: text =>
    if c = ':' ∨ c = ')' then
      if read.head? = some '-' then throw .danglingNegation else return (read.reverse, c :: text)
    else if c = '-' then
      if read.contains '-' then throw .repeatedNegation else readLettersFrom (c :: read) text
    else if ¬['i', 'm', 's', 'U', 'u', 'R', 'x'].contains c then throw .unknownFlag
    else if read.contains c then throw .repeatedFlag
    else readLettersFrom (c :: read) text

/-- The height of things side by side: a single one gains nothing. -/
def heightOf : List Nat → Nat
  | [] => 0
  | [height] => height
  | heights => 1 + heights.foldl max 0

end TagLint.Pattern
