import TagLint.FileSystem
/-!
# File systems held as trees

A tree of directories, files and symbolic links, with a working directory, answers what a file system is
asked. Paths are followed piece by piece: a link is replaced by its target, two dots lead to the directory
above, and whatever comes before a slash must be a directory.
-/

namespace TagLint

/-- What a name in a directory stands for. -/
inductive FileNode where
  | file (contents : List UInt8)
  | directory (entries : List (List UInt8 × FileNode))
  | link (target : Path)
  /-- Something that is there, holds no bytes and is neither a file nor a directory. -/
  | device

namespace FileNode

/-- What a directory holds under a name. -/
def find? (name : List UInt8) (entries : List (List UInt8 × FileNode)) : Option FileNode :=
  (entries.find? (fun e => e.1 == name)).map Prod.snd

/-- Changes what a directory holds under a name, in its place or behind the others. -/
def update (name : List UInt8) (change : Option FileNode → FileNode) :
    List (List UInt8 × FileNode) → List (List UInt8 × FileNode)
  | [] => [(name, change none)]
  | e :: entries =>
    if e.1 = name then (name, change (some e.2)) :: entries else e :: update name change entries

/-- Puts a node at a place below a node, in a directory that is there. -/
def insert (leaf : FileNode) : (place : List (List UInt8)) → FileNode → FileNode
  | [], _ => leaf
  | name :: place, .directory entries =>
    .directory (update name (fun there => insert leaf place (there.getD (.directory []))) entries)
  | _, node => node

/-- The node at a place below a node. -/
def descend? (node : FileNode) : (place : List (List UInt8)) → Option FileNode
  | [] => some node
  | name :: place =>
    match node with
    | .directory entries => (find? name entries).bind (descend? · place)
    | _ => none

mutual

/-- What a walk sees of a node with a name. -/
def entry (name : List UInt8) : FileNode → Entry
  | .file _ => .file name
  | .directory nodes => .directory name (entries nodes)
  | .link _ | .device => .other name

/-- What a walk sees of the entries of a directory. -/
def entries : List (List UInt8 × FileNode) → List Entry
  | [] => []
  | (name, node) :: rest => node.entry name :: entries rest

end

end FileNode

/-- A file system as a tree, with the place of the working directory, outermost name first. -/
structure FileTree where
  root : FileNode
  workingDirectory : List (List UInt8)

namespace FileTree

/-- The most bytes in a path, and in one name of it. -/
def maxPath : Nat := 4095

def maxName : Nat := 255

/-- The most links that are followed for one path. -/
def maxLinks : Nat := 40

/-- Follows the pieces of a path from a place, whose names are listed innermost first. The last piece may be
a name that nothing has. -/
def follow (t : FileTree) : (links : Nat) → (place pieces : List (List UInt8)) →
    Except OsError (List (List UInt8))
  | _, place, [] => .ok place
  | links, place, piece :: rest =>
    match t.root.descend? place.reverse with
    | some (.directory entries) =>
      if piece = [] ∨ piece = Component.current.bytes then t.follow links place rest
      else if piece = Component.parent.bytes then t.follow links place.tail rest
      else if maxName < piece.length then .error .nameTooLong
      else
        match FileNode.find? piece entries with
        | none => if rest.isEmpty then .ok (piece :: place) else .error .notFound
        | some (.link target) =>
          if _ : links = 0 then .error .tooManyLinks
          else t.follow (links - 1) (if target.isAbsolute then [] else place) (target.pieces ++ rest)
        | some _ => t.follow links (piece :: place) rest
    | _ => .error .notADirectory
termination_by links _ pieces => (links, pieces.length)

/-- Where a path begins. -/
def startOf (t : FileTree) (p : Path) : List (List UInt8) :=
  if p.isAbsolute then [] else t.workingDirectory.reverse

/-- The place that a path leads to, names listed innermost first. There may be nothing at it. -/
def locate (t : FileTree) (p : Path) : Except OsError (List (List UInt8)) :=
  if 0 ∈ p.bytes then .error .nulInPath
  else if p.bytes = [] then .error .notFound
  else if maxPath < p.bytes.length then .error .nameTooLong
  else t.follow maxLinks (t.startOf p) p.pieces

/-- The node that a path leads to. -/
def nodeAt (t : FileTree) (p : Path) : Except OsError FileNode := do
  match t.root.descend? (← t.locate p).reverse with
  | some node => .ok node
  | none => .error .notFound

/-- The contents of the file that a path leads to. -/
def read (t : FileTree) (p : Path) : Except OsError (List UInt8) := do
  match ← t.nodeAt p with
  | .file contents => .ok contents
  | .directory _ => .error .isADirectory
  | .link _ | .device => .ok []

/-- What stands at a path. -/
def look (t : FileTree) (p : Path) : Option Entry := (t.nodeAt p).toOption.map (FileNode.entry [])

/-- The tree as a file system. -/
def fileSystem (t : FileTree) : FileSystem := ⟨t.look, t.read⟩

/-- Puts a node at a place. -/
def put (t : FileTree) (place : List (List UInt8)) (node : FileNode) : FileTree :=
  { t with root := FileNode.insert node place.reverse t.root }

/-- Goes from a place to the directory that a piece leads to, and makes it if there is nothing. -/
def enter (state : FileTree × List (List UInt8)) (piece : List UInt8) :
    Except OsError (FileTree × List (List UInt8)) := do
  let (t, place) := state
  let next ← t.follow maxLinks place [piece]
  match t.root.descend? next.reverse with
  | none => return (t.put next (.directory []), next)
  | some _ => return (t, next)

/-- Puts a node at a path, after making the directories on the way. A link at the path is written through,
unless the node is a link itself; a directory that is there already stays. -/
def make (t : FileTree) (p : Path) (node : FileNode) : Except OsError FileTree := do
  let names := p.pieces.filter (fun piece => piece ≠ [] ∧ piece ≠ Component.current.bytes)
  match names.getLast?, node with
  | none, _ => return t
  | some _, .directory _ => return (← names.foldlM enter (t, t.startOf p)).1
  | some name, node => do
    let (t, place) ← names.dropLast.foldlM enter (t, t.startOf p)
    match node with
    | .link _ => return t.put (name :: place) node
    | node => return t.put (← t.follow maxLinks place [name]) node

end FileTree

end TagLint
