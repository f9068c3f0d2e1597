import TagLint.Path
/-!
# File systems

The program asks two things of a file system: what stands at a path, and what a file contains. A file
system is the record of the answers, so that all that follows from them is a function.
-/

namespace TagLint

/-- Why the system does not give the contents of a file. -/
inductive OsError where
  | notFound
  | notADirectory
  | isADirectory
  | nameTooLong
  | tooManyLinks
  | nulInPath
  /-- Any other failure, in the words of the system. -/
  | other (description : String)
deriving DecidableEq

def OsError.message : OsError → String
  | .notFound => "No such file or directory (os error 2)"
  | .notADirectory => "Not a directory (os error 20)"
  | .isADirectory => "Is a directory (os error 21)"
  | .nameTooLong => "File name too long (os error 36)"
  | .tooManyLinks => "Too many levels of symbolic links (os error 40)"
  | .nulInPath => "file name contained an unexpected NUL byte"
  | .other description => description

/-- What a directory holds under a name. -/
inductive Entry where
  | file (name : List UInt8)
  | directory (name : List UInt8) (entries : List Entry)
  /-- A symbolic link or a device, which a walk passes over. -/
  | other (name : List UInt8)

/-- The name of an entry in its directory. -/
def Entry.name : Entry → List UInt8
  | .file name | .directory name _ | .other name => name

/-- The answers of a file system. -/
structure FileSystem where
  /-- What stands at a path, all links on the way followed; nothing if the path leads nowhere. -/
  look : Path → Option Entry
  /-- The contents of the file at a path. -/
  read : Path → Except OsError (List UInt8)

namespace FileSystem

/-- The file system of answers that were collected before. What was not asked is not there. -/
def ofAnswers (looks : List (Path × Option Entry)) (reads : List (Path × Except OsError (List UInt8))) :
    FileSystem where
  look p := ((looks.find? (fun a => a.1 == p)).map Prod.snd).join
  read p := ((reads.find? (fun a => a.1 == p)).map Prod.snd).getD (.error .notFound)

/-- Whether a file stands at a path. -/
def isFile (fs : FileSystem) (p : Path) : Bool :=
  match fs.look p with
  | some (.file _) => true
  | _ => false

end FileSystem

end TagLint
