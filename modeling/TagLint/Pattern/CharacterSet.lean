import TagLint.Pattern.Atom
import TagLint.Text.Split
/-!
# Sets of characters

A set stands in square brackets: characters, ranges of them, classes and further sets, with operators
between some of them. Sets that are open are kept in a list, so a set is read in one pass over its text.
-/

namespace TagLint.Pattern

/-- A set whose closing bracket has not been read. -/
structure OpenSet where
  /-- The set holds what its members do not. -/
  negated : Bool
  /-- The heights of the members behind the last operator. -/
  members : List Nat
  /-- The height of what stands before the last operator. -/
  left? : Option Nat
  /-- Whether a character or a range was among the members. -/
  hasCharacters : Bool
deriving DecidableEq

namespace OpenSet

/-- The height of what the set holds. -/
def height (s : OpenSet) : Nat :=
  match s.left? with
  | some left => 1 + max left (heightOf s.members)
  | none => heightOf s.members

/-- Adds characters to a set. -/
def addCharacters (s : OpenSet) (count : Nat) : OpenSet :=
  { s with members := List.replicate count 0 ++ s.members, hasCharacters := s.hasCharacters || count ≠ 0 }

/-- Adds a set to the one around it. -/
def addSet (s inner : OpenSet) : OpenSet := { s with members := (inner.height + 1) :: s.members }

/-- Begins what stands behind an operator. -/
def operate (s : OpenSet) : OpenSet := { s with members := [], left? := some s.height }

/-- Whether the case variants of characters would have to be known. -/
def needsVariants (f : Flags) (s : OpenSet) : Bool := f.unicode && f.ignoreCase && s.hasCharacters

/-- Why what stands before an operator cannot be matched. It is settled once it has two operands. -/
def operatorFault? (f : Flags) (s : OpenSet) : Option PatternFault :=
  if s.left?.isSome && s.needsVariants f then some .unknownCaseVariants else none

/-- Why a complete set cannot be matched. Without Unicode a negated set would hold bytes that belong to no
character. -/
def fault? (f : Flags) (s : OpenSet) : Option PatternFault :=
  if s.needsVariants f then some .unknownCaseVariants
  else if !f.unicode && s.negated then some .invalidUtf8
  else none

end OpenSet

/-! ## Members -/

/-- Opens a set from behind its bracket: a circumflex negates it, and hyphens or a bracket at its front are
members. -/
def openSet (f : Flags) (text : List Char) : OpenSet × List Char :=
  let text := f.skip text
  let (negated, text) := match text with
    | '^' :: rest => (true, f.skip rest)
    | text => (false, text)
  let (hyphens, text) := f.take (· == '-') text
  let s : OpenSet := ⟨negated, [], none, false⟩
  match hyphens, text with
  | [], ']' :: rest => (s.addCharacters 1, f.skip rest)
  | hyphens, text => (s.addCharacters hyphens.length, text)

/-- The names of the classes of ASCII characters. -/
def asciiClasses : List String :=
  ["alnum", "alpha", "ascii", "blank", "cntrl", "digit", "graph", "lower", "print", "punct", "space", "upper",
    "word", "xdigit"]

/-- Takes a named class off the text behind a bracket, and tells whether it is negated. -/
def takeAsciiClass? (text : List Char) : Option (Bool × List Char) := do
  let text ← after? [':'] text
  let (negated, text) := match text with
    | '^' :: rest => (true, rest)
    | text => (false, text)
  let name := text.takeWhile (· ≠ ':')
  let rest ← after? [':', ']'] (text.dropWhile (· ≠ ':'))
  if asciiClasses.contains (.ofList name) then some (negated, rest) else none

/-- Why a named class cannot be matched. -/
def asciiClassFault? (f : Flags) (negated : Bool) : Option PatternFault :=
  if f.unicode then if f.ignoreCase then some .unknownCaseVariants else none
  else if negated then some .invalidUtf8
  else none

/-- Reads a character or an escape in a set. -/
def readSetAtom (f : Flags) : List Char → Checked (Atom × List Char)
  | [] => throw .unclosedSet
  | '\\' :: text => readEscape f text
  | c :: text => return (.character c, text)

/-- Reads an atom of a set or a range between two of them, and tells why it cannot be matched. A hyphen before
the end of the set or before another hyphen makes no range. -/
def readMember (f : Flags) (text : List Char) : Checked (Option PatternFault × List Char) := do
  let (first, rest) ← readSetAtom f text
  let single : Checked (Option PatternFault × List Char) :=
    if first = .place then throw .invalidSetEscape else return (first.fault? f true, f.skip rest)
  match f.skip rest with
  | [] => throw .unclosedSet
  | '-' :: rest =>
    let behind := f.behindHyphen? rest
    if behind = some ']' ∨ behind = some '-' then single
    else
      let (last, rest) ← readSetAtom f (f.skip rest)
      match first.character?, last.character? with
      | some low, some high =>
        if low ≤ high then return ((first.fault? f true).or (last.fault? f true), rest)
        else throw .reversedRange
      | _, _ => throw .invalidRangeEnd
  | _ => single

/-! ## Sets -/

/-- The sets that are open at some place: the innermost one, those around it, and why what has been read
cannot be matched. -/
structure SetState where
  inner : OpenSet
  outer : List OpenSet
  fault? : Option PatternFault

namespace SetState

/-- Notes a fault unless there is one already. -/
def note (s : SetState) (fault? : Option PatternFault) : SetState := { s with fault? := s.fault?.or fault? }

end SetState

/-- Reads on in a set up to the bracket that closes the outermost one. Gives the height of that one and why it
cannot be matched. Each step takes a character off the text. -/
def readSetFrom (f : Flags) : (fuel : Nat) → SetState → List Char → Checked ((Nat × Option PatternFault) × List Char)
  | 0, _, _ => throw .unclosedSet
  | fuel + 1, s, text =>
    match f.skip text with
    | [] => throw .unclosedSet
    | '[' :: rest =>
      match takeAsciiClass? rest with
      | some (negated, rest) =>
        readSetFrom f fuel ({ s with inner := s.inner.addCharacters 1 }.note (asciiClassFault? f negated)) rest
      | none =>
        let (inner, rest) := openSet f rest
        readSetFrom f fuel { s with inner, outer := s.inner :: s.outer } rest
    | ']' :: rest =>
      let fault? := s.fault?.or (s.inner.fault? f)
      match s.outer with
      | [] => return ((s.inner.height + 1, fault?), rest)
      | around :: outer => readSetFrom f fuel ⟨around.addSet s.inner, outer, fault?⟩ rest
    | '&' :: '&' :: rest | '-' :: '-' :: rest | '~' :: '~' :: rest =>
      readSetFrom f fuel ({ s with inner := s.inner.operate }.note (s.inner.operatorFault? f)) rest
    | text => do
      let (fault?, rest) ← readMember f text
      readSetFrom f fuel ({ s with inner := s.inner.addCharacters 1 }.note fault?) rest

/-- Reads a set from behind its bracket. -/
def readSet (f : Flags) (text : List Char) : Checked ((Nat × Option PatternFault) × List Char) :=
  let (inner, rest) := openSet f text
  readSetFrom f (text.length + 1) ⟨inner, [], none⟩ rest

end TagLint.Pattern
