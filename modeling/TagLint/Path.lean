import TagLint.Text.Split
import TagLint.Text.Utf8
/-!
# Paths

A path is a sequence of bytes, whatever encoding they are meant in. Its meaning is its list of components:
slashes separate them, empty ones and all single dots but a leading one are dropped. Two paths with the
same components are the same place in two spellings.
-/

namespace TagLint

/-- A path as it is spelled. -/
structure Path where
  bytes : List UInt8
deriving DecidableEq

/-- One step of a path. The order of the constructors is their order in sorted lists. -/
inductive Component where
  | root
  | current
  | parent
  | name (bytes : List UInt8)
deriving DecidableEq

namespace Component

/-- The rank of a kind of component. -/
def rank : Component → Nat
  | .root => 0
  | .current => 1
  | .parent => 2
  | .name _ => 3

/-- The bytes of a component. The root has none, for its slash is the separator behind it. -/
def bytes : Component → List UInt8
  | .root => []
  | .current => [0x2E]
  | .parent => [0x2E, 0x2E]
  | .name bytes => bytes

end Component

/-- Lexicographic order. -/
def compareLists {α : Type} (compareItems : α → α → Ordering) : List α → List α → Ordering
  | [], [] => .eq
  | [], _ :: _ => .lt
  | _ :: _, [] => .gt
  | a :: s, b :: t => (compareItems a b).then (compareLists compareItems s t)

/-- The order of names: byte by byte. -/
def compareBytes : List UInt8 → List UInt8 → Ordering := compareLists (fun a b => compare a.toNat b.toNat)

/-- The order of components: by kind, and names by their bytes. -/
def Component.compareTo (a b : Component) : Ordering :=
  (compare a.rank b.rank).then (compareBytes a.bytes b.bytes)

namespace Path

/-- The byte between components. -/
def slash : UInt8 := 0x2F

def ofString (s : String) : Path := ⟨Utf8.encode s.toList⟩

/-- A path as it is printed: parts that are no text become replacement characters. -/
def display (p : Path) : String := .ofList (Utf8.decodeLossy p.bytes)

/-- The text of a path, if it is one. -/
def text? (p : Path) : Option String :=
  match Utf8.decode p.bytes with
  | .ok text => some (.ofList text)
  | .error _ => none

def isAbsolute (p : Path) : Bool := p.bytes.head? == some slash

/-- The pieces between the slashes of a path, empty ones included. -/
def pieces (p : Path) : List (List UInt8) := splitOn slash p.bytes

/-- The component that a piece stands for, single dots and empty pieces being none. -/
def component? (piece : List UInt8) : Option Component :=
  if piece = [] ∨ piece = Component.current.bytes then none
  else if piece = Component.parent.bytes then some .parent
  else some (.name piece)

/-- What a path begins with besides its names: the root, or a single dot. -/
def lead (p : Path) : List Component :=
  if p.isAbsolute then [.root]
  else if p.pieces.head? = some Component.current.bytes then [.current]
  else []

/-- The components of a path. -/
def components (p : Path) : List Component := p.lead ++ p.pieces.filterMap component?

/-- Whether two paths are spellings of the same place. -/
def same (p q : Path) : Bool := p.components == q.components

/-- The order of paths: component by component. -/
def compareTo (p q : Path) : Ordering := compareLists Component.compareTo p.components q.components

/-- The path of components, without needless bytes. -/
def ofComponents : List Component → Path
  | [.root] => ⟨[slash]⟩
  | components => ⟨[slash].intercalate (components.map Component.bytes)⟩

/-- The path spelled without single dots, doubled slashes and slashes at its end. -/
def normalize (p : Path) : Path := ofComponents (p.components.filter (· ≠ .current))

/-- The path `q` seen from `p`, as it is spelled: an absolute `q` is itself, any other goes behind a slash. -/
def join (p q : Path) : Path :=
  if q.isAbsolute then q
  else if p.bytes = [] ∨ p.bytes.getLast? = some slash then ⟨p.bytes ++ q.bytes⟩
  else ⟨p.bytes ++ slash :: q.bytes⟩

/-- The part of a file name behind its last dot, unless the dot is its first character. -/
def extension? (name : List UInt8) : Option (List UInt8) :=
  let dot : UInt8 := 0x2E
  let behind := name.reverse.takeWhile (· ≠ dot)
  match name.reverse.dropWhile (· ≠ dot) with
  | _ :: _ :: _ => some behind.reverse
  | _ => none

end Path

end TagLint
