import TagLint.Path
/-!
# The log

What the program tells about its own work is a list of events. Each event has a level and a wording.
-/

namespace TagLint

inductive LogLevel where
  | debug
  | info
  | warn
deriving DecidableEq

/-- The name of a level. -/
def LogLevel.name : LogLevel → String
  | .debug => "debug"
  | .info => "info"
  | .warn => "warn"

inductive LogEvent where
  | loadingConfig (file : Path)
  /-- Expected failures are given, and the run does not use them. -/
  | expectationsIgnored
  | ruleRegistered (name : String)
  | filesDiscovered (count : Nat)
  | linting (file : Path)
  | fileFailed (file : Path) (findings : Nat)
  /-- An expected failure names none of the files of the run. -/
  | expectationUnmatched (file : Path)
deriving DecidableEq

namespace LogEvent

def level : LogEvent → LogLevel
  | .expectationsIgnored => .info
  | .expectationUnmatched _ => .warn
  | _ => .debug

def message : LogEvent → String
  | .loadingConfig file => s!"Loading config file {file.display}"
  | .expectationsIgnored => "Expected failures are configured but test mode is off; ignoring them"
  | .ruleRegistered name => s!"Registered structural rule '{name}'"
  | .filesDiscovered count => s!"Discovered {count} markup file(s)"
  | .linting file => s!"Linting: {file.display}"
  | .fileFailed file findings => s!"{file.display} failed with {findings} diagnostic(s)"
  | .expectationUnmatched file => s!"Expected failure {file.display} was not among the linted files"

end LogEvent

end TagLint
