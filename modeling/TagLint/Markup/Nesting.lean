import TagLint.Markup.Element
import TagLint.Markup.NestingFault
/-!
# From tokens to the tree

A stack of open elements takes the tokens one by one and either becomes the tree of the document or
collects what is wrong with its nesting. Most faults leave the stack as it is, and the scan goes on; an
error in the text and a close tag of another element end it, because what follows cannot be placed.
-/

namespace TagLint

/-- An element whose close tag has not been met, with its complete children, last first. -/
structure OpenElement where
  name : String
  attributes : List Attribute
  position : Position
  children : List Element

/-- The element that an open element becomes at its close tag. -/
def OpenElement.close (e : OpenElement) : Element := ⟨e.name, e.attributes, e.children.reverse, e.position⟩

/-- What is known of a document between two of its tokens. -/
structure Nesting where
  /-- The open elements, innermost first. -/
  stack : List OpenElement
  /-- The first top-level element, once it is complete. -/
  root : Option Element
  /-- The name of the first top-level element, from its open tag on. -/
  rootName : Option String
  /-- The faults found so far, last first. -/
  faults : List NestingFault

namespace Nesting

/-- Before the first token. -/
def start : Nesting := ⟨[], none, none, []⟩

def report (n : Nesting) (fault : NestingFault) : Nesting := { n with faults := fault :: n.faults }

/-- Notes that an element begins. With nothing open it is a top-level element, of which there may be one. -/
def beginElement (n : Nesting) (name : String) (position : Position) : Nesting :=
  match n.stack, n.rootName with
  | _ :: _, _ => n
  | [], some root => n.report (.secondRoot name root position)
  | [], none => { n with rootName := some name }

/-- Puts a complete element where it belongs; a second top-level element is dropped. -/
def attach (n : Nesting) (e : Element) : Nesting :=
  match n.stack with
  | parent :: rest => { n with stack := { parent with children := e :: parent.children } :: rest }
  | [] => { n with root := n.root <|> some e }

/-- Takes a close tag. -/
def close (n : Nesting) (name : String) (position : Position) : Except (List NestingFault) Nesting :=
  match n.stack with
  | [] => .ok (n.report (.closeWithoutOpen name position))
  | e :: rest =>
    if e.name = name then .ok ({ n with stack := rest }.attach e.close)
    else .error (.mismatchedClose e.name name e.position position :: n.faults)

/-- Takes a token. Fails with all faults found, last first, when the scan cannot go on. -/
def feed (n : Nesting) (t : Token) : Except (List NestingFault) Nesting :=
  match t.kind with
  | .comment _ | .declaration _ => .ok n
  | .text .. => .ok (if n.stack.isEmpty && !t.isBlank then n.report (.textOutsideRoot t.position) else n)
  | .openTag name attributes =>
    let begun := n.beginElement name t.position
    .ok { begun with stack := ⟨name, attributes, t.position, []⟩ :: begun.stack }
  | .selfClosingTag name attributes =>
    .ok ((n.beginElement name t.position).attach ⟨name, attributes, [], t.position⟩)
  | .closeTag name => n.close name t.position

/-- Takes a token or the error that stands in its place. -/
def feedItem (n : Nesting) : Except SyntaxError Token → Except (List NestingFault) Nesting
  | .ok t => n.feed t
  | .error e => .error (.syntaxError e :: n.faults)

/-- Takes items until one ends the scan, and gives the items not looked at. -/
def feedAll (n : Nesting) (items : List (Except SyntaxError Token)) :
    Except (List NestingFault) Nesting × List (Except SyntaxError Token) :=
  match items with
  | [] => (.ok n, [])
  | item :: rest =>
    match n.feedItem item with
    | .ok next => next.feedAll rest
    | .error faults => (.error faults, rest)

/-- The faults at the end of a text, first to last: those found before, then one for each element still
open, outermost first. That there is no element at all is a fault of its own. -/
def finalFaults (n : Nesting) : List NestingFault :=
  n.faults.reverse ++ n.stack.reverse.map (fun e => .unclosed e.name e.position)
    ++ if n.root.isNone && n.stack.isEmpty then [.noRoot] else []

/-- The tree at the end of a text, or its faults. -/
def finish (n : Nesting) : Except (List NestingFault) Element :=
  match n.root, n.finalFaults with
  | some root, [] => .ok root
  | _, faults => .error faults

end Nesting

/-- The tree of a stream of tokens, or what is wrong with their nesting, and the items not looked at. -/
def buildTree (items : List (Except SyntaxError Token)) :
    Except (List NestingFault) Element × List (Except SyntaxError Token) :=
  match Nesting.start.feedAll items with
  | (.ok n, rest) => (n.finish, rest)
  | (.error faults, rest) => (.error faults.reverse, rest)

/-- The root element of a well-formed stream of tokens, or else what to report about it. -/
def checkWellFormed (items : List (Except SyntaxError Token)) : Except (List Diagnostic) Element :=
  (buildTree items).1.mapError (·.map NestingFault.diagnostic)

end TagLint
