import TagLint.Markup.Token
/-!
# The tree of elements

A well-formed document is one element with elements inside it. `Element.walk` visits what lies below an
element in document order, each with the elements around it. The walk keeps its own stacks, so the depth
of a document does not matter to it.
-/

namespace TagLint

/-- An element, with the place of its open tag. -/
structure Element where
  name : String
  attributes : List Attribute
  children : List Element
  position : Position

/-- An element met on a walk, with the elements around it, innermost first. -/
structure Visit where
  element : Element
  ancestors : List Element

/-- A walk under way. `pending` holds, for each element of `ancestors`, the children not visited yet. -/
structure Walk where
  ancestors : List Element
  pending : List (List Element)
  /-- What was visited so far, last first. -/
  visits : List Visit

namespace Walk

/-- Before the first child of an element. -/
def start (e : Element) : Walk := ⟨[e], [e.children], []⟩

/-- Visits the next element and descends into it, or returns from an element without further children. -/
def step? (w : Walk) : Option Walk :=
  match w.pending with
  | [] => none
  | [] :: pending => some ⟨w.ancestors.tail, pending, w.visits⟩
  | (e :: siblings) :: pending =>
    some ⟨e :: w.ancestors, e.children :: siblings :: pending, ⟨e, w.ancestors⟩ :: w.visits⟩

theorem sizeOf_pending_lt {w w' : Walk} (h : w.step? = some w') : sizeOf w'.pending < sizeOf w.pending := by
  unfold step? at h
  split at h
  next => simp at h
  next p hp =>
    obtain rfl : _ = w' := by simpa using h
    simp [hp]
  next e s p hp =>
    obtain rfl : _ = w' := by simpa using h
    obtain ⟨name, attributes, children, position⟩ := e
    simp [hp]
    omega

/-- Walks to the end and lists what was visited, first to last. -/
def finish (w : Walk) : List Visit :=
  match _ : w.step? with
  | none => w.visits.reverse
  | some w' => w'.finish
termination_by sizeOf w.pending
decreasing_by exact sizeOf_pending_lt ‹_›

end Walk

namespace Element

/-- The value of the first attribute of a name. -/
def attribute? (e : Element) (name : String) : Option String :=
  (e.attributes.find? (fun a => a.name == name)).map Attribute.value

/-- The elements below an element in document order, each with the elements around it. -/
def walk (e : Element) : List Visit := (Walk.start e).finish

end Element

end TagLint
