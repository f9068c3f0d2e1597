import TagLint.Path
import TagLint.Toml.Document
/-!
# The configuration file

A configuration file is a TOML document with settings under fixed keys, all of which may be missing. Any
other key, and a value of the wrong kind, makes the file invalid. The settings of test mode may be written as
a table or, without their keys, as an array in a fixed order.
-/

namespace TagLint.Config

/-- The settings of a configuration file. -/
structure FileSettings where
  extensions : Option (List String)
  rootOnly : List String
  testEnabled : Option Bool
  expectedFailures : List Path
deriving DecidableEq

namespace FileSettings

/-- The settings of an empty file. -/
def default : FileSettings := ⟨none, [], none, []⟩

def stringOf? : Toml.Value → Option String
  | .string s => some s
  | _ => none

def stringsOf? : Toml.Value → Option (List String)
  | .array items => items.mapM stringOf?
  | _ => none

def booleanOf? : Toml.Value → Option Bool
  | .boolean b => some b
  | _ => none

def withEnabled (s : FileSettings) (v : Toml.Value) : Option FileSettings :=
  (booleanOf? v).map fun b => { s with testEnabled := some b }

def withExpectedFailures (s : FileSettings) (v : Toml.Value) : Option FileSettings :=
  (stringsOf? v).map fun paths => { s with expectedFailures := paths.map Path.ofString }

/-- Takes a setting of test mode. -/
def withTestEntry (s : FileSettings) (entry : String × Toml.Value) : Option FileSettings :=
  match entry with
  | ("enabled", v) => s.withEnabled v
  | ("expected_failures", v) => s.withExpectedFailures v
  | _ => none

/-- Takes the settings of test mode. Items of an array beyond the last setting do not count. -/
def withTest (s : FileSettings) : Toml.Value → Option FileSettings
  | .table entries => entries.foldlM withTestEntry s
  | .array [] => some s
  | .array [enabled] => s.withEnabled enabled
  | .array (enabled :: expected :: _) => do (← s.withEnabled enabled).withExpectedFailures expected
  | _ => none

/-- Takes a setting. -/
def withEntry (s : FileSettings) (entry : String × Toml.Value) : Option FileSettings :=
  match entry with
  | ("extensions", v) => (stringsOf? v).map fun names => { s with extensions := some names }
  | ("root_only", v) => (stringsOf? v).map fun names => { s with rootOnly := names }
  | ("test", v) => s.withTest v
  | _ => none

/-- The settings of a text, if it is a valid configuration file. -/
def parse (text : List Char) : Option FileSettings := do
  (← Toml.parse text).foldlM withEntry default

end FileSettings

end TagLint.Config
