import TagLint.Rule.Basic
/-!
# Elements that may only be the root

The rule for an element name finds each element of that name below the root and names the elements around
it, outermost first.
-/

namespace TagLint

namespace RootOnly

/-- The elements around a place, outermost first, joined as `<a> > <b>`. -/
def chain (ancestors : List Element) : String :=
  " > ".intercalate (ancestors.reverse.map fun a => s!"<{a.name}>")

/-- The finding about an element met below the root. -/
def finding (v : Visit) : Diagnostic :=
  .structural v.element.position
    s!"<{v.element.name}> may only appear as the document root, found inside {chain v.ancestors}"

/-- The findings of the rule for an element name. -/
def findings (name : String) (root : Element) : List Diagnostic :=
  (root.walk.filter fun v => v.element.name == name).map finding

/-- The name of the rule for an element name. -/
def ruleName (name : String) : String := s!"root-only:{name}"

/-- The rule that allows an element only as the root. -/
def rule (name : String) : Rule := ⟨ruleName name, findings name⟩

end RootOnly

end TagLint
