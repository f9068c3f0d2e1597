import TagLint.Config.Basic
import TagLint.Discovery
import TagLint.LogFilter
import TagLint.Report.Json
import TagLint.Report.Text
/-!
# The program

A run resolves its configuration, registers the rules, finds the files, lints them and decides. Whatever is
wrong with the configuration is found before the first file is read. The command line makes of this an exit
status and the texts it prints.
-/

namespace TagLint

/-- What ends a run before its report. -/
inductive Failure where
  | config (error : ConfigError)
  | registry (error : RegistryError)
  | discovery (error : DiscoveryError)
  | report (error : Report.ReportError)
deriving DecidableEq

def Failure.message : Failure → String
  | .config error => error.message
  | .registry error => error.message
  | .discovery error => error.message
  | .report error => error.message

/-- A run up to its decision. -/
structure Run where
  config : Config
  outcome : Outcome
  /-- What was logged, first to last. -/
  events : List LogEvent

namespace Run

/-- Runs the program. -/
def perform (a : CommandLine.Arguments) (env : Environment) (fs : FileSystem) : Except Failure Run := do
  let config ← (Config.resolve a env fs).mapError .config
  let (registered, registry) := Registry.rootOnly config.rootOnly
  let registry ← registry.mapError .registry
  let files ← (Discovery.discover fs config.extensions config.paths).mapError .discovery
  let verdicts := lintFiles fs registry files
  return {
    config
    outcome := config.mode.evaluate verdicts
    events := config.events ++ registered ++ Discovery.events files ++ verdicts.flatMap FileVerdict.events
      ++ config.mode.events verdicts }

/-- The report on a run, in the form that its configuration asks for. -/
def report (r : Run) : Except Failure String :=
  match r.config.format with
  | .text => .ok (Report.text r.outcome r.config.mode r.config.root)
  | .json => (Report.json r.outcome).mapError .report

end Run

/-- What a run of the program leaves behind. -/
structure Execution where
  exitCode : Nat
  output : String
  /-- What is told about the log filter before the run. -/
  warnings : List String
  /-- What is told about a run that did not come to its end. -/
  complaint : Option String
  /-- The part of the log that was asked for. -/
  log : List LogEvent
deriving DecidableEq

namespace Execution

/-- Runs the program on arguments. -/
def ofArguments (a : CommandLine.Arguments) (env : Environment) (fs : FileSystem) : Execution :=
  let warnings := (LogFilter.faults a.logLevel).map FilterFault.warning
  let decided : Except Failure (Run × String) := do
    let run ← Run.perform a env fs
    return (run, ← run.report)
  match decided with
  | .error f => ⟨1, "", warnings, some s!"Error: {f.message}", []⟩
  | .ok (run, report) =>
    let shown := LogFilter.shown a.logLevel
    ⟨run.outcome.exitCode, report ++ "\n", warnings, none, run.events.filter (·.level ∈ shown)⟩

/-- Runs the program on the words of a command line. -/
def ofCommandLine (words : List String) (env : Environment) (fs : FileSystem) : Execution :=
  match CommandLine.Arguments.parse words with
  | .error .help => ⟨0, CommandLine.helpText, [], none, []⟩
  | .error .version => ⟨0, CommandLine.versionText, [], none, []⟩
  | .error (.usage error) => ⟨2, "", [], some s!"error: {error.message}", []⟩
  | .ok a => ofArguments a env fs

end Execution

end TagLint
