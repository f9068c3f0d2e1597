/-!
# Control sequences

What is told about a command line may quote words with control sequences for a terminal in them. These are
taken out, with all other control characters but tabs and the ends of lines and pages. A text that has only
characters to show stays as it is: `shownFrom_of_forall`.
-/

namespace TagLint.ControlSequence

/-- What kind of sequence a character stands in. All of them begin with the escape character. -/
inductive Kind where
  /-- Behind the escape character. -/
  | escape
  /-- Behind the escape character and a mark that one more character follows. -/
  | marked
  /-- A sequence that a letter ends. -/
  | control
  /-- The head of a device string. What may still come depends on what came, as it does in the next two. -/
  | deviceHead
  | deviceParameters
  | deviceMarks
  /-- A string that ends only with another sequence, or with the byte of the string terminator. -/
  | string
  /-- The title of a window, which the bell ends, too. -/
  | title
deriving DecidableEq

/-- Where a text stands between two characters. -/
inductive Mode where
  | plain
  | inside (kind : Kind)
  /-- A blank control inside a sequence interrupts it: what follows is shown up to the next control, which
  takes the sequence up again. A character beyond ASCII ends it. -/
  | interrupted (kind : Kind)
deriving DecidableEq

def escapeChar : Char := '\x1B'

/-- The controls that are shown: tabs and the ends of lines and pages. -/
def isBlankControl (c : Char) : Bool := c == '\t' || c == '\n' || c == '\x0C' || c == '\r'

/-- Whether a character is shown outside of sequences. -/
def isShown (c : Char) : Bool := (' ' ≤ c && c ≠ '\x7F') || isBlankControl c

/-- Whether the encoding of a character has the byte of the string terminator. -/
def hasTerminator (c : Char) : Bool := (String.utf8EncodeChar c).contains 0x9C

/-- Where a character behind the escape character leads. -/
def afterEscape (c : Char) : Mode :=
  if c < ' ' || '\x7F' ≤ c then .inside .escape
  else if c ≤ '/' then .inside .marked
  else if c = '[' then .inside .control
  else if c = ']' then .inside .title
  else if c = 'P' then .inside .deviceHead
  else if c = 'X' || c = '^' || c = '_' then .inside .string
  else .plain

/-- Where a character inside a sequence leads. -/
def Kind.next (kind : Kind) (c : Char) : Mode :=
  if c = escapeChar then .inside .escape
  else if c = '\x18' || c = '\x1A' then .plain
  else
    match kind with
    | .escape => afterEscape c
    | .marked => if '0' ≤ c && c ≤ '~' then .plain else .inside .marked
    | .control => if '@' ≤ c && c ≤ '~' then .plain else .inside .control
    | .deviceHead =>
      if c < ' ' || '\x7F' ≤ c then .inside .deviceHead
      else if c ≤ '/' then .inside .deviceMarks
      else if c ≤ '?' then .inside .deviceParameters
      else .inside .string
    | .deviceParameters =>
      if c < ' ' || '\x7F' ≤ c then .inside .deviceParameters
      else if c ≤ '/' then .inside .deviceMarks
      else if c ≤ ';' then .inside .deviceParameters
      else .inside .string
    | .deviceMarks => if '0' ≤ c && c ≤ '~' then .inside .string else .inside .deviceMarks
    | .string => if hasTerminator c then .plain else .inside .string
    | .title => if c = '\x07' then .plain else .inside .title

/-- Whether a blank control is shown inside a sequence. Strings swallow it. -/
def Kind.showsBlank : Kind → Bool
  | .escape | .marked | .control => true
  | _ => false

/-- Takes a character, and tells whether it is shown. -/
def Mode.step (mode : Mode) (c : Char) : Mode × Bool :=
  match mode with
  | .plain => if isShown c then (.plain, true) else (if c = escapeChar then .inside .escape else .plain, false)
  | .inside kind => if kind.showsBlank && isBlankControl c then (.interrupted kind, true) else (kind.next c, false)
  | .interrupted kind =>
    if isShown c then (if c ≤ '\x7F' then .interrupted kind else .plain, true) else (kind.next c, false)

/-- The characters of a text that are shown, behind a given place. -/
def shownFrom (mode : Mode) : List Char → List Char
  | [] => []
  | c :: text =>
    let (next, shown) := mode.step c
    if shown then c :: shownFrom next text else shownFrom next text

/-- A text without control sequences. -/
def strip (text : String) : String := .ofList (shownFrom .plain text.toList)

theorem shownFrom_of_forall {text : List Char} (h : ∀ c ∈ text, isShown c = true) :
    shownFrom .plain text = text := by
  induction text with
  | nil => rfl
  | cons c text ih =>
    have hc : isShown c = true := h c (by simp)
    simp [shownFrom, Mode.step, hc, ih fun d hd => h d (by simp [hd])]

end TagLint.ControlSequence
