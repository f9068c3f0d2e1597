import TagLint.FileSystem
import TagLint.Log
/-!
# Finding the files to lint

An input that is a file is taken as it is. An input that is a directory is walked, siblings in the order of
the bytes of their names, and gives the files whose extension is one of those asked for. Links below an
input are not followed, and the metadata of version control is not looked into.
-/

namespace TagLint

/-- Why there is no list of files. -/
inductive DiscoveryError where
  | missingInput (input : Path)
deriving DecidableEq

def DiscoveryError.message : DiscoveryError → String
  | .missingInput input => s!"Input path does not exist: {input.display}"

namespace Discovery

/-- The directories in which version control keeps its metadata. -/
def metadataNames : List (List UInt8) := [".git", ".hg", ".svn"].map (fun s => (Path.ofString s).bytes)

/-- The lower-case form of an ASCII letter; every other byte is its own. -/
def lowerByte (b : UInt8) : UInt8 := if 0x41 ≤ b ∧ b ≤ 0x5A then b + 0x20 else b

/-- Whether two names are equal but for the case of ASCII letters. -/
def sameIgnoringCase (s t : List UInt8) : Bool := s.map lowerByte == t.map lowerByte

/-- Whether a file name has one of the extensions. -/
def hasExtension (extensions : List String) (name : List UInt8) : Bool :=
  match Path.extension? name with
  | none => false
  | some found => extensions.any (fun e => sameIgnoringCase (Path.ofString e).bytes found)

/-- The directory with the entries of every directory in the order of their names. -/
def sorted : Entry → Entry
  | .file name => .file name
  | .other name => .other name
  | .directory name entries =>
    .directory name ((entries.map sorted).mergeSort (fun a b => (compareBytes a.name b.name).isLE))

mutual

/-- The wanted files at and below an entry of the directory at a path. -/
def filesAt (extensions : List String) (directory : Path) : Entry → List Path
  | .file name => if hasExtension extensions name then [directory.join ⟨name⟩] else []
  | .other _ => []
  | .directory name entries =>
    if name ∈ metadataNames then [] else filesIn extensions (directory.join ⟨name⟩) entries

/-- The wanted files at and below the entries of the directory at a path. -/
def filesIn (extensions : List String) (directory : Path) : List Entry → List Path
  | [] => []
  | e :: entries => filesAt extensions directory e ++ filesIn extensions directory entries

end

/-- The files that an input stands for. -/
def filesOf (fs : FileSystem) (extensions : List String) (input : Path) :
    Except DiscoveryError (List Path) :=
  match (fs.look input).map sorted with
  | none => .error (.missingInput input)
  | some (.file _) => .ok [input]
  | some (.directory _ entries) => .ok (filesIn extensions input entries)
  | some (.other _) => .ok []

/-- The files that inputs stand for, one input after the other. -/
def discover (fs : FileSystem) (extensions : List String) (inputs : List Path) :
    Except DiscoveryError (List Path) :=
  List.flatten <$> inputs.mapM (filesOf fs extensions)

/-- What is logged about the files found. -/
def events (files : List Path) : List LogEvent := [.filesDiscovered files.length]

end Discovery

end TagLint
