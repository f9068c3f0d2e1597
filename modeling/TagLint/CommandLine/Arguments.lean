import TagLint.CommandLine.Parameter
import TagLint.Path
import TagLint.Text.ControlSequence
import TagLint.Text.Split
/-!
# Reading the command line

Words are taken from left to right. The values of an option or of a run of operands are collected first and
settled when something else begins, so the first thing that is wrong is not always what stops the reading:
an unknown option stops it at once. Two hyphens alone make operands of all words behind them.
-/

namespace TagLint.CommandLine

/-- The form of a report. -/
inductive Format where
  | text
  | json
deriving DecidableEq

/-- The name of a form. -/
def Format.name : Format → String
  | .text => "text"
  | .json => "json"

/-- The form of a name. -/
def Format.ofName? (name : String) : Option Format :=
  [Format.text, Format.json].find? (fun f => f.name == name)

/-- What a command line asks for. -/
structure Arguments where
  paths : List Path
  config : Option Path
  testMode : Bool
  expectedFailures : List Path
  rootOnly : List String
  extensions : List String
  format : Format
  logLevel : String
deriving DecidableEq

/-- The arguments of an empty command line. -/
def Arguments.default : Arguments := ⟨[], none, false, [], [], [], .text, "warn"⟩

/-- What is wrong with a command line. -/
inductive UsageError where
  | unknownArgument (argument : String)
  | missingValue (p : Parameter)
  | invalidValue (value : String) (p : Parameter)
  | unneededValue (value : String) (p : Parameter)
  | repeated (p : Parameter)
deriving DecidableEq

/-- A word of the command line as messages quote it. -/
def quoted (word : String) : String := s!"'{ControlSequence.strip word}'"

def UsageError.message : UsageError → String
  | .unknownArgument argument => s!"unexpected argument {quoted argument} found"
  | .missingValue p => s!"a value is required for '{p.usage}' but none was supplied"
  | .invalidValue value p => s!"invalid value {quoted value} for '{p.usage}'"
  | .unneededValue value p => s!"unexpected value {quoted value} for '{p.usage}' found; no more were expected"
  | .repeated p => s!"the argument '{p.usage}' cannot be used multiple times"

/-- Why the reading of a command line stops. -/
inductive Stop where
  | help
  | version
  | usage (error : UsageError)
deriving DecidableEq

/-- A command line read in part. -/
structure State where
  arguments : Arguments
  /-- The parameters that were settled. -/
  settled : List Parameter
  /-- A parameter whose values are being collected, last first. -/
  collecting : Option (Parameter × List String)
  /-- The next word is the value of the option that is being collected. -/
  awaiting : Bool

namespace State

def start : State := ⟨.default, [], none, false⟩

/-- Takes a value of a parameter. -/
def put (a : Arguments) (p : Parameter) (value : String) : Except Stop Arguments :=
  if p.takesPath && value.isEmpty then .error (.usage (.missingValue p))
  else
    match p with
    | .paths => .ok { a with paths := a.paths ++ [.ofString value] }
    | .config => .ok { a with config := some (.ofString value) }
    | .expectedFailure => .ok { a with expectedFailures := a.expectedFailures ++ [.ofString value] }
    | .rootOnly => .ok { a with rootOnly := a.rootOnly ++ [value] }
    | .extensionName => .ok { a with extensions := a.extensions ++ [value] }
    | .logLevel => .ok { a with logLevel := value }
    | .format =>
      match Format.ofName? value with
      | some f => .ok { a with format := f }
      | none =>
        .error (.usage (if value.isEmpty then .missingValue p else .invalidValue value p))
    | .testMode => .ok { a with testMode := true }
    | .help => .error .help
    | .version => .error .version

/-- Settles a parameter with its values; a flag has the empty text for a value. -/
def settle (s : State) (p : Parameter) (values : List String) : Except Stop State := do
  if values.isEmpty then throw (.usage (.missingValue p))
  if !p.repeatable && p ∈ s.settled then throw (.usage (.repeated p))
  let arguments ← values.foldlM (put · p ·) s.arguments
  return { s with arguments := arguments, settled := p :: s.settled }

/-- Settles the parameter whose values were being collected. -/
def settleCollected (s : State) : Except Stop State :=
  match s.collecting with
  | none => .ok s
  | some (p, values) => { s with collecting := none, awaiting := false }.settle p values.reverse

/-- Takes a flag. -/
def takeFlag (s : State) (p : Parameter) : Except Stop State := do
  (← s.settleCollected).settle p [""]

/-- Takes a word that begins with two hyphens, split at its first equals sign. -/
def takeLong (s : State) (name : String) (value? : Option String) : Except Stop State := do
  match Parameter.ofLongName? name with
  | none => throw (.usage (.unknownArgument ("--" ++ name)))
  | some p =>
    match p.takesValue, value? with
    | true, some value => (← s.settleCollected).settle p [value]
    | true, none => return { ← s.settleCollected with collecting := some (p, []), awaiting := true }
    | false, some value => throw (.usage (.unneededValue value p))
    | false, none => s.takeFlag p

/-- Takes the letters behind one hyphen. -/
def takeLetters (s : State) (letters : List Char) : Except Stop State :=
  letters.foldlM (fun s c =>
    match Parameter.ofLetter? c with
    | some p => s.takeFlag p
    | none => .error (.usage (.unknownArgument ("-" ++ String.singleton c)))) s

/-- Takes an operand. -/
def takeOperand (s : State) (word : String) : Except Stop State :=
  match s.collecting with
  | some (.paths, words) => .ok { s with collecting := some (.paths, word :: words) }
  | _ => do return { ← s.settleCollected with collecting := some (.paths, [word]) }

/-- Takes a word that is no option: the value that is awaited, or else an operand. -/
def takeValue (s : State) (word : String) : Except Stop State :=
  match s.awaiting, s.collecting with
  | true, some (p, values) => .ok { s with collecting := some (p, word :: values), awaiting := false }
  | _, _ => s.takeOperand word

/-- Takes a word. -/
def take (s : State) (word : String) : Except Stop State :=
  match word.toList with
  | '-' :: '-' :: option =>
    let name := option.takeWhile (· ≠ '=')
    match option.dropWhile (· ≠ '=') with
    | _ :: value => s.takeLong (.ofList name) (some (.ofList value))
    | [] => s.takeLong (.ofList name) none
  | '-' :: c :: letters => s.takeLetters (c :: letters)
  | _ => s.takeValue word

/-- Takes all words. Those behind two hyphens alone are operands. -/
def takeAll (s : State) : List String → Except Stop State
  | [] => s.settleCollected
  | word :: words => do
    if word = "--" then (← words.foldlM takeOperand s).settleCollected
    else (← s.take word).takeAll words

end State

/-- The arguments that a command line gives. -/
def Arguments.parse (words : List String) : Except Stop Arguments :=
  State.arguments <$> State.start.takeAll words

end TagLint.CommandLine
