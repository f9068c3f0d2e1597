import TagLint.Toml.Value
/-!
# Building TOML tables

A document fills tables in pieces: a key with dots makes tables on its way, a header makes the table that
the keys below it go into, and a header in double brackets adds a table to an array. Nothing is defined
twice, so each of these fails where something else stands already.
-/

namespace TagLint.Toml

/-- How a table came to be, which decides what may still be added to it. -/
inductive Origin where
  /-- By a header of its own. -/
  | header
  /-- By a longer header or key only, so that its own header may follow. -/
  | implied
  /-- By a key with dots. -/
  | dotted
deriving DecidableEq

/-- What a key stands for while a document is read. -/
inductive Node where
  | value (v : Value)
  | table (origin : Origin) (entries : List (String × Node))
  /-- The tables of an array, last first. -/
  | tables (tables : List (List (String × Node)))

/-- The entries of a table under construction. -/
abbrev Entries := List (String × Node)

namespace Entries

/-- What stands under a key. -/
def find? (key : String) (entries : Entries) : Option Node :=
  (List.find? (fun e => e.1 == key) entries).map Prod.snd

/-- Puts something under a key, in the place of what stands there or behind the others. -/
def set (key : String) (node : Node) : Entries → Entries
  | [] => [(key, node)]
  | e :: entries => if e.1 = key then (key, node) :: entries else e :: set key node entries

/-- Defines a key with dots. -/
def define : (path : List String) → Value → Entries → Option Entries
  | [], _, _ => none
  | [key], v, entries => if (entries.find? key).isSome then none else some (entries ++ [(key, .value v)])
  | key :: path, v, entries =>
    match entries.find? key with
    | none => (define path v []).map fun inner => entries.set key (.table .dotted inner)
    | some (.table .dotted inner) =>
      (define path v inner).map fun inner => entries.set key (.table .dotted inner)
    | some _ => none

/-- Changes the table that a header path leads to, making tables on the way. At an array the way goes on in
its last table. -/
def modify (change : Option Node → Option Node) : (path : List String) → Entries → Option Entries
  | [], _ => none
  | [key], entries => (change (entries.find? key)).map fun node => entries.set key node
  | key :: path, entries =>
    match entries.find? key with
    | none => (modify change path []).map fun inner => entries.set key (.table .implied inner)
    | some (.table origin inner) => (modify change path inner).map fun inner => entries.set key (.table origin inner)
    | some (.tables (last :: before)) =>
      (modify change path last).map fun last => entries.set key (.tables (last :: before))
    | some _ => none

/-- Opens the table of a header. -/
def openTable (path : List String) : Entries → Option Entries :=
  modify (fun
    | none => some (.table .header [])
    | some (.table .implied inner) => some (.table .header inner)
    | some _ => none) path

/-- Adds a table to the array of a header in double brackets. -/
def addTable (path : List String) : Entries → Option Entries :=
  modify (fun
    | none => some (.tables [[]])
    | some (.tables tables) => some (.tables ([] :: tables))
    | some _ => none) path

/-- Defines a key below the header that was read last; the path of the document itself is empty. -/
def defineBelow (header key : List String) (v : Value) (entries : Entries) : Option Entries :=
  match header with
  | [] => entries.define key v
  | _ =>
    entries.modify (fun
      | some (.table origin inner) => (Entries.define key v inner).map (.table origin)
      | some (.tables (last :: before)) => (Entries.define key v last).map fun last => .tables (last :: before)
      | _ => none) header

end Entries

mutual

/-- The value that a key stands for at the end of a document. -/
def Node.toValue : Node → Value
  | .value v => v
  | .table _ entries => .table (Entries.toValues entries)
  | .tables tables => .array (Entries.toTables tables).reverse

/-- The entries of a table at the end of a document. -/
def Entries.toValues : Entries → List (String × Value)
  | [] => []
  | (key, node) :: rest => (key, node.toValue) :: Entries.toValues rest

/-- The tables of an array at the end of a document, last first. -/
def Entries.toTables : List Entries → List Value
  | [] => []
  | entries :: rest => .table (Entries.toValues entries) :: Entries.toTables rest

end

end TagLint.Toml
