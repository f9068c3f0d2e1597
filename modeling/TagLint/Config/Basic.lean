import TagLint.CommandLine.Arguments
import TagLint.Config.File
import TagLint.Config.Values
import TagLint.FileSystem
import TagLint.Run.Outcome
/-!
# The configuration of a run

Settings come from a configuration file, from environment variables and from the command line. Lists are
put together in this order, each entry at its first occurrence; of single settings the last source that
gives one counts. Inputs and expected failures are taken from the same root, so that they can meet.
-/

namespace TagLint

/-- The environment variables that the program looks at. -/
structure Environment where
  workspace : Option String
  testMode : Option String
  expectedFailures : Option String
  rootOnly : Option String
  configHome : Option String
  home : Option String
deriving DecidableEq

namespace Environment

def workspaceName : String := "GITHUB_WORKSPACE"

def testModeName : String := "MARKUP_LINT_TEST_MODE"

def expectedFailuresName : String := "MARKUP_LINT_EXPECTED_FAILURES"

def rootOnlyName : String := "MARKUP_LINT_ROOT_ONLY"

/-- The environment in which variables have the given values. -/
def ofLookup (lookup : String → Option String) : Environment where
  workspace := lookup workspaceName
  testMode := lookup testModeName
  expectedFailures := lookup expectedFailuresName
  rootOnly := lookup rootOnlyName
  configHome := lookup "XDG_CONFIG_HOME"
  home := lookup "HOME"

end Environment

/-- Why there is no configuration. -/
inductive ConfigError where
  | unreadableFile (file : Path)
  | invalidFile (file : Path)
  | emptyExtension
  | invalidElement (name : String)
  | invalidSwitch (word variableName : String)
  | emptyEntry (position : Nat) (variableName : String)
deriving DecidableEq

def ConfigError.message : ConfigError → String
  | .unreadableFile file => s!"Failed to read config file {file.display}"
  | .invalidFile file => s!"Failed to parse config file {file.display}"
  | .emptyExtension => "File extensions must not be empty"
  | .invalidElement name => s!"Invalid root-only element name '{name}'"
  | .invalidSwitch word variableName => s!"Invalid boolean '{word}' for {variableName}"
  | .emptyEntry position variableName => s!"Empty entry at position {position} in {variableName}"

/-- All settings of a run. -/
structure Config where
  /-- What relative inputs and expected failures are relative to. -/
  root : Path
  paths : List Path
  extensions : List String
  rootOnly : List String
  testMode : Bool
  expectedFailures : List Path
  format : CommandLine.Format
  logLevel : String
  /-- The configuration file, if there is one. -/
  file : Option Path
deriving DecidableEq

namespace Config

/-! ## The configuration file -/

/-- The root of the workspace: the current directory, unless a variable names another one. -/
def rootOf (env : Environment) : Path :=
  match env.workspace with
  | none => .ofString "."
  | some workspace => if workspace.isEmpty then .ofString "." else .ofString workspace

/-- The directory of the user's configuration files, if the environment tells it. -/
def userDirectory? (env : Environment) : Option Path :=
  match env.configHome.map Path.ofString with
  | some directory => if directory.isAbsolute then some directory else homeDirectory?
  | none => homeDirectory?
where
  homeDirectory? : Option Path :=
    match env.home with
    | none => none
    | some home => if home.isEmpty then none else some ((Path.ofString home).join (.ofString ".config"))

/-- The places of a configuration file that no argument names, in the order in which they are tried. -/
def defaultFiles (env : Environment) : List Path :=
  (rootOf env).join (.ofString "markup-lint.toml")
    :: ((userDirectory? env).map fun directory =>
      (directory.join (.ofString "markup-lint")).join (.ofString "config.toml")).toList

/-- The configuration file of a run. -/
def file? (a : CommandLine.Arguments) (env : Environment) (fs : FileSystem) : Option Path :=
  match a.config with
  | some file => some file
  | none => (defaultFiles env).find? fs.isFile

/-- The settings in a configuration file. -/
def loadFile (fs : FileSystem) (file : Path) : Except ConfigError FileSettings :=
  match (fs.read file).toOption.bind (fun bytes => (Utf8.decode bytes).toOption) with
  | none => .error (.unreadableFile file)
  | some text =>
    match FileSettings.parse text with
    | none => .error (.invalidFile file)
    | some settings => .ok settings

/-- The settings of the configuration file of a run, if it has one. -/
def fileSettings (fs : FileSystem) : Option Path → Except ConfigError FileSettings
  | none => .ok .default
  | some file => loadFile fs file

/-! ## Single settings -/

/-- The extensions of the files to lint, without the dots in front. -/
def resolveExtensions (a : CommandLine.Arguments) (settings : FileSettings) : Except ConfigError (List String) :=
  let given := if a.extensions.isEmpty then settings.extensions.getD ["html"] else a.extensions
  let extensions := given.map fun e => String.ofList (e.toList.dropWhile (· == '.'))
  if extensions.any String.isEmpty then .error .emptyExtension else .ok extensions

/-- The entries of a list in an environment variable, none if it is not set. -/
def variableList (name : String) (value : Option String) : Except ConfigError (List String) :=
  match value with
  | none => .ok []
  | some text => (parseList text).mapError (.emptyEntry · name)

/-- Whether a name can be that of an element. -/
def isElementName (name : String) : Bool :=
  !name.isEmpty && name.toList.all fun c => !isBlank c && !"<>/=\"'".toList.contains c

/-- The elements that may only be the root. -/
def resolveRootOnly (a : CommandLine.Arguments) (env : Environment) (settings : FileSettings) :
    Except ConfigError (List String) := do
  let elements := settings.rootOnly ++ (← variableList Environment.rootOnlyName env.rootOnly) ++ a.rootOnly
  match elements.find? (fun name => !isElementName name) with
  | some name => throw (.invalidElement name)
  | none => return elements.eraseDups

/-- Whether the run is in test mode. -/
def resolveTestMode (a : CommandLine.Arguments) (env : Environment) (settings : FileSettings) :
    Except ConfigError Bool :=
  if a.testMode then .ok true
  else
    match env.testMode with
    | none => .ok (settings.testEnabled.getD false)
    | some text =>
      match parseSwitch text with
      | some on => .ok on
      | none => .error (.invalidSwitch (switchWord text) Environment.testModeName)

/-- The files expected to fail, seen from the root. Two spellings of a path are one entry. -/
def resolveExpectedFailures (a : CommandLine.Arguments) (env : Environment) (settings : FileSettings) :
    Except ConfigError (List Path) := do
  let fromVariable ← variableList Environment.expectedFailuresName env.expectedFailures
  let entries := settings.expectedFailures ++ fromVariable.map Path.ofString ++ a.expectedFailures
  return (entries.map (rootOf env).join).eraseDupsBy Path.same

/-! ## All settings -/

/-- The configuration that arguments, environment and configuration file give. -/
def resolve (a : CommandLine.Arguments) (env : Environment) (fs : FileSystem) : Except ConfigError Config := do
  let root := rootOf env
  let file := file? a env fs
  let settings ← fileSettings fs file
  let extensions ← resolveExtensions a settings
  let rootOnly ← resolveRootOnly a env settings
  let testMode ← resolveTestMode a env settings
  let expectedFailures ← resolveExpectedFailures a env settings
  return {
    root, extensions, rootOnly, testMode, expectedFailures, file
    paths := if a.paths.isEmpty then [root] else a.paths.map root.join
    format := a.format
    logLevel := a.logLevel }

/-- How the run is decided. -/
def mode (c : Config) : RunMode := if c.testMode then .expecting c.expectedFailures else .normal

/-- What is logged about a configuration. -/
def events (c : Config) : List LogEvent :=
  c.file.toList.map .loadingConfig
    ++ if !c.testMode && !c.expectedFailures.isEmpty then [.expectationsIgnored] else []

end Config

end TagLint
