import TagLint.Log
import TagLint.Pattern.Check
import TagLint.Text.Blank
import TagLint.Text.Split
/-!
# Log filters

A log filter says which events are shown. It is a list of directives with commas between them: a level, the
name of a part of the program, or a name with a level behind an equals sign. A slash and a pattern may
follow. Directives and patterns that cannot be read are passed over with a warning.
-/

namespace TagLint

/-- What cannot be read in a log filter. -/
inductive FilterFault where
  | directive (text : String)
  | tooManySlashes (filter : String)
  | pattern (text : String) (fault : PatternFault)
deriving DecidableEq

/-- A text with each of its lines moved to the right. -/
def indented (text : String) : String :=
  "\n".intercalate ((splitOn '\n' text.toList).map fun line => "    " ++ .ofList line)

/-- The warning about a fault. -/
def FilterFault.warning : FilterFault → String
  | .directive text => s!"warning: invalid logging spec '{text}', ignoring it"
  | .tooManySlashes filter => s!"warning: invalid logging spec '{filter}' (too many '/'s), ignoring it"
  | .pattern text fault =>
    s!"warning: invalid regex filter - regex parse error:\n{indented text}\nerror: {fault.message}, ignoring it"

namespace LogFilter

/-- The levels that a threshold lets through, if it is the name of one. Nothing that the program logs is an
error. -/
def levels? (threshold : List Char) : Option (List LogLevel) :=
  match String.ofList (threshold.map Char.toLower) with
  | "off" | "error" => some []
  | "warn" => some [.warn]
  | "info" => some [.warn, .info]
  | "debug" | "trace" => some [.warn, .info, .debug]
  | _ => none

/-- What cannot be read in a directive. -/
def directiveFault? (directive : List Char) : Option FilterFault :=
  match splitOn '=' directive with
  | [_] => none
  | [_, level] =>
    let level := trimChars level
    if level.isEmpty || (levels? level).isSome then none else some (.directive (.ofList level))
  | _ => some (.directive (.ofList directive))

/-- What cannot be read in a pattern. -/
def patternFault? (pattern : List Char) : Option FilterFault :=
  (Pattern.fault? pattern).map (.pattern (.ofList pattern))

/-- The directives of a filter and the pattern behind them, nothing if there is more than one slash in it. -/
def parts? (filter : String) : Option (List (List Char) × Option (List Char)) :=
  let directives := fun text => (splitOn ',' text).map trimChars
  match splitOn '/' filter.toList with
  | [text] => some (directives text, none)
  | [text, pattern] => some (directives text, some pattern)
  | _ => none

/-- What cannot be read in a filter. -/
def faults (filter : String) : List FilterFault :=
  match parts? filter with
  | some (directives, pattern?) =>
    directives.filterMap directiveFault? ++ (pattern?.bind patternFault?).toList
  | none => [.tooManySlashes filter]

/-- The levels that are shown of the whole program: those of the last directive that is a level alone. -/
def shown (filter : String) : List LogLevel :=
  (((parts? filter).elim [] Prod.fst).filterMap levels?).getLast?.getD []

end LogFilter

end TagLint
