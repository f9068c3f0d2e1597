import TagLint.Pattern.CharacterSet
import TagLint.Pattern.Group
import TagLint.Pattern.Repetition
/-!
# Checking patterns

A pattern is read once, with the groups that are open kept in a list. The first fault of its writing is the
fault of the pattern. A pattern that is well written is faulty if it is too high, or else by the first thing
in it that cannot be matched.
-/

namespace TagLint.Pattern

/-- A part of a sequence. -/
inductive Part where
  | expression (height : Nat)
  /-- Flags for what follows, which cannot be repeated. -/
  | setting
deriving DecidableEq

def Part.height : Part → Nat
  | .expression height => height
  | .setting => 0

/-- The inside of a group, or a whole pattern, up to some place. -/
structure Scope where
  /-- The parts of the last choice, last first. -/
  parts : List Part
  /-- The heights of the choices before it, last first. -/
  choices : List Nat
deriving DecidableEq

namespace Scope

def empty : Scope := ⟨[], []⟩

def add (s : Scope) (p : Part) : Scope := { s with parts := p :: s.parts }

/-- The height of the last choice. -/
def choiceHeight (s : Scope) : Nat := heightOf (s.parts.map Part.height)

/-- Begins another choice. -/
def choose (s : Scope) : Scope := ⟨[], s.choiceHeight :: s.choices⟩

def height (s : Scope) : Nat := heightOf (s.choiceHeight :: s.choices)

/-- Repeats the last part. -/
def repeatLast (s : Scope) : Checked Scope :=
  match s.parts with
  | .expression height :: parts => return { s with parts := .expression (height + 1) :: parts }
  | _ => throw .missingOperand

end Scope

/-- What is known of a pattern up to some place. -/
structure State where
  flags : Flags
  /-- The inside of the innermost open group. -/
  scope : Scope
  /-- What stands before each open group, innermost first, with the flags that hold behind it. -/
  outer : List (Scope × Flags)
  /-- The names of groups. -/
  names : List (List Char)
  /-- Why what has been read cannot be matched. -/
  fault? : Option PatternFault

namespace State

def start : State := ⟨.initial, .empty, [], [], none⟩

/-- Adds an expression, and why it cannot be matched. -/
def add (s : State) (height : Nat) (fault? : Option PatternFault) : State :=
  { s with scope := s.scope.add (.expression height), fault? := s.fault?.or fault? }

def addAtom (s : State) (a : Atom) : State := s.add 0 (a.fault? s.flags false)

/-- Follows an opening parenthesis. -/
def enter (s : State) : Opening → State
  | .setting flags => { s with flags, scope := s.scope.add .setting }
  | .group name? flags =>
    { s with flags, scope := .empty, outer := (s.scope, s.flags) :: s.outer, names := name?.toList ++ s.names }

/-- Closes the innermost group. -/
def close (s : State) : Checked State :=
  match s.outer with
  | [] => throw .unopenedGroup
  | (scope, flags) :: outer =>
    return { s with flags, scope := scope.add (.expression (s.scope.height + 1)), outer }

/-- Reads the next thing of a pattern, which begins with `c`. -/
def step (s : State) (c : Char) (text : List Char) : Checked (State × List Char) :=
  match c with
  | '(' => do
    let (opening, rest) ← readOpening s.flags s.names text
    return (s.enter opening, rest)
  | ')' => return (← s.close, text)
  | '|' => return ({ s with scope := s.scope.choose }, text)
  | '[' => do
    let ((height, fault?), rest) ← readSet s.flags text
    return (s.add height fault?, rest)
  | '?' | '*' | '+' => return ({ s with scope := ← s.scope.repeatLast }, skipReluctance text)
  | '\x7b' => return ({ s with scope := ← s.scope.repeatLast }, ← skipCounts s.flags text)
  | '\\' => do
    let (a, rest) ← readEscape s.flags text
    return (s.addAtom a, rest)
  | '.' => return (s.addAtom .any, text)
  | '^' | '$' => return (s.addAtom .place, text)
  | c => return (s.addAtom (.character c), text)

/-- What is known of a pattern at its end. -/
def finish (s : State) : Checked State :=
  if ¬s.outer.isEmpty then throw .unclosedGroup
  else if maxPatternHeight < s.scope.height then throw .excessiveHeight
  else return s

/-- Reads a pattern on to its end. Each step takes a character off the text. -/
def readFrom : (fuel : Nat) → State → List Char → Checked State
  | 0, s, _ => s.finish
  | fuel + 1, s, text =>
    match s.flags.skip text with
    | [] => s.finish
    | c :: text => do
      let (s, rest) ← s.step c text
      readFrom fuel s rest

end State

/-- Why a pattern cannot be used, if it cannot. -/
def fault? (pattern : List Char) : Option PatternFault :=
  match State.readFrom (pattern.length + 1) .start pattern with
  | .ok s => s.fault?
  | .error fault => some fault

end TagLint.Pattern
