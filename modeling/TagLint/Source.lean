import TagLint.Diagnostic
import TagLint.FileSystem
/-!
# Loading a text

The contents of a file are decoded as UTF-8 and lose one byte order mark at the front. A file that cannot
be read or decoded gives a single finding about the file as a whole.
-/

namespace TagLint

/-- Why a file gives no text. -/
inductive LoadError where
  | unreadable (error : OsError)
  /-- The bytes are no UTF-8; those before the offset are. -/
  | notUtf8 (offset : Nat)
deriving DecidableEq

def LoadError.message : LoadError → String
  | .unreadable error => s!"Error reading file: {error.message}"
  | .notUtf8 offset => s!"File is not valid UTF-8 (invalid byte at offset {offset})"

/-- The mark that may stand before a text and is no part of it. -/
def byteOrderMark : Char := '\uFEFF'

/-- A text without one byte order mark at the front. -/
def dropMark : List Char → List Char
  | [] => []
  | c :: text => if c = byteOrderMark then text else c :: text

/-- The text that bytes encode, without its mark. -/
def decodeSource (bytes : List UInt8) : Except LoadError String :=
  match Utf8.decode bytes with
  | .ok text => .ok (.ofList (dropMark text))
  | .error offset => .error (.notUtf8 offset)

/-- The text of a file, or the finding that it has none. -/
def loadSource (fs : FileSystem) (p : Path) : Except Diagnostic String :=
  let text := match fs.read p with
    | .ok bytes => decodeSource bytes
    | .error error => .error (.unreadable error)
  text.mapError (fun error => .io error.message)

end TagLint
