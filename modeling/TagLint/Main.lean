import TagLint.Program
/-!
# The command

The answers of the file system are collected in three steps, each of which asks what the one before made
necessary: the places of the configuration file, the inputs, and the files found in them. The run itself is
a function of the answers.
-/

namespace TagLint.Command

/-- An error of the system. -/
def osError (e : IO.Error) : OsError :=
  match e with
  | .noFileOrDirectory .. => .notFound
  | .inappropriateType _ code details | .invalidArgument _ code details | .permissionDenied _ code details
  | .resourceExhausted _ code details =>
    if code = 20 then .notADirectory
    else if code = 21 then .isADirectory
    else if code = 36 then .nameTooLong
    else if code = 40 then .tooManyLinks
    else .other s!"{details} (os error {code})"
  | e => .other (toString e)

/-- The contents of a file. -/
def read (p : Path) : IO (Except OsError (List UInt8)) := do
  match p.text? with
  | none => return .error .notFound
  | some text =>
    try
      let bytes ← IO.FS.readBinFile text
      return .ok bytes.toList
    catch e => return .error (osError e)

/-- What a directory holds, links not followed. What cannot be read is left out. -/
partial def entries (directory : String) : IO (List Entry) := do
  let mut found := []
  for e in ← (System.mkFilePath [directory]).readDir do
    let name := (Path.ofString e.fileName).bytes
    try
      match (← e.path.symlinkMetadata).type with
      | .file => found := .file name :: found
      | .dir => found := .directory name (← entries e.path.toString) :: found
      | _ => found := .other name :: found
    catch _ => pure ()
  return found

/-- What stands at a path, links followed. -/
def look (p : Path) : IO (Option Entry) := do
  match p.text? with
  | none => return none
  | some text =>
    try
      match (← (System.mkFilePath [text]).metadata).type with
      | .file => return some (.file [])
      | .dir => return some (.directory [] (← entries text))
      | _ => return some (.other [])
    catch _ => return none

/-- Collects answers about what stands at paths and what files contain. -/
def collect (toLook toRead : List Path) : IO FileSystem := do
  let looks ← toLook.mapM fun p => return (p, ← look p)
  let reads ← toRead.mapM fun p => return (p, ← read p)
  return .ofAnswers looks reads

/-- The answers that a run on a command line needs. -/
def answers (words : List String) (env : Environment) : IO FileSystem := do
  match CommandLine.Arguments.parse words with
  | .error _ => collect [] []
  | .ok a =>
    let settings := a.config.toList ++ Config.defaultFiles env
    let first ← collect settings settings
    match Config.resolve a env first with
    | .error _ => return first
    | .ok c =>
      let second ← collect (settings ++ c.paths) settings
      match Discovery.discover second c.extensions c.paths with
      | .error _ => return second
      | .ok files => collect (settings ++ c.paths) (settings ++ files)

/-- The environment of the process. -/
def environment : IO Environment := do
  let names := [Environment.workspaceName, Environment.testModeName, Environment.expectedFailuresName,
    Environment.rootOnlyName, "XDG_CONFIG_HOME", "HOME"]
  let values ← names.mapM fun name => return (name, ← IO.getEnv name)
  return .ofLookup fun name => (values.lookup name).join

/-- Runs the program on a command line and prints what it leaves behind. -/
def run (words : List String) : IO UInt32 := do
  let env ← environment
  let done := Execution.ofCommandLine words env (← answers words env)
  for warning in done.warnings do
    IO.eprintln warning
  for event in done.log do
    IO.eprintln s!"[{event.level.name}] {event.message}"
  IO.print done.output
  for complaint in done.complaint do
    IO.eprintln complaint
  return UInt32.ofNat done.exitCode

end TagLint.Command

def main (words : List String) : IO UInt32 := TagLint.Command.run words
