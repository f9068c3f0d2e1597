/-!
# The parameters of the command line

What may be given on the command line, and how usage messages name it.
-/

namespace TagLint.CommandLine

/-- What may be given: the operands, options with a value, and flags. -/
inductive Parameter where
  | paths
  | config
  | testMode
  | expectedFailure
  | rootOnly
  | extensionName
  | format
  | logLevel
  | help
  | version
deriving DecidableEq

namespace Parameter

/-- All options and flags, in the order of the help text. -/
def options : List Parameter :=
  [config, testMode, expectedFailure, rootOnly, extensionName, format, logLevel, help, version]

/-- The name behind two hyphens; the operands have none. -/
def longName : Parameter → String
  | paths => ""
  | config => "config"
  | testMode => "test-mode"
  | expectedFailure => "expected-failure"
  | rootOnly => "root-only"
  | extensionName => "extension"
  | format => "format"
  | logLevel => "log-level"
  | help => "help"
  | version => "version"

/-- The letter behind one hyphen, for the flags that have one. -/
def letter? : Parameter → Option Char
  | help => some 'h'
  | version => some 'V'
  | _ => none

/-- What stands for the value of an option. -/
def valueName? : Parameter → Option String
  | config => some "CONFIG"
  | expectedFailure => some "PATH"
  | rootOnly => some "ELEMENT"
  | extensionName => some "EXT"
  | format => some "FORMAT"
  | logLevel => some "LOG_LEVEL"
  | _ => none

/-- Whether a parameter takes a value. -/
def takesValue (p : Parameter) : Bool := p == paths || p.valueName?.isSome

/-- Whether a parameter may be given more than once. -/
def repeatable : Parameter → Bool
  | paths | expectedFailure | rootOnly | extensionName => true
  | _ => false

/-- Whether the values of a parameter are paths, which may not be empty. -/
def takesPath : Parameter → Bool
  | paths | config | expectedFailure => true
  | _ => false

/-- A parameter as usage messages name it. -/
def usage (p : Parameter) : String :=
  match p, p.valueName? with
  | paths, _ => "[PATHS]..."
  | p, some value => s!"--{p.longName} <{value}>"
  | p, none => s!"--{p.longName}"

/-- The option or flag of a name behind two hyphens. -/
def ofLongName? (name : String) : Option Parameter := options.find? (fun p => p.longName == name)

/-- The flag of a letter behind one hyphen. -/
def ofLetter? (c : Char) : Option Parameter := options.find? (fun p => p.letter? == some c)

/-- What the help text says about a parameter. -/
def description : Parameter → String
  | paths => "Files or directories to lint (default: $GITHUB_WORKSPACE or '.')"
  | config => "Path to a markup-lint.toml config file"
  | testMode => "Compare results against expected failures instead of requiring all files to pass"
  | expectedFailure => "File expected to fail in test mode"
  | rootOnly => "Element allowed only as the document root"
  | extensionName => "Markup file extension to discover (case-insensitive)"
  | format => "Report format [default: text] [possible values: text, json]"
  | logLevel => "Log level (trace, debug, info, warn, error) [default: warn]"
  | help => "Print help"
  | version => "Print version"

/-- The first column of a line of the help text. -/
def heading (p : Parameter) : String :=
  match p, p.letter? with
  | paths, _ => "  " ++ p.usage
  | p, some c => s!"  -{c}, {p.usage}"
  | p, none => s!"      {p.usage}"

end Parameter

/-- A text filled up with spaces. -/
def padTo (width : Nat) (text : String) : String := text ++ .ofList (List.replicate (width - text.length) ' ')

/-- The lines about parameters in two columns. -/
def helpLines (ps : List Parameter) : List String :=
  let width := (ps.map (·.heading.length)).foldl max 0
  ps.map fun p => padTo (width + 2) p.heading ++ p.description

/-- The name under which the program is known. -/
def programName : String := "markup-lint"

/-- The text that the help flag asks for. -/
def helpText : String :=
  "\n".intercalate (
    ["Strict well-formedness and structural linter for markup files", "",
      s!"Usage: {programName} [OPTIONS] [PATHS]...", "", "Arguments:"]
    ++ helpLines [.paths] ++ ["", "Options:"] ++ helpLines Parameter.options) ++ "\n"

/-- The text that the version flag asks for. -/
def versionText : String := s!"{programName} 0.1.0\n"

end TagLint.CommandLine
