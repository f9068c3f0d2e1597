import TagLint.Log
import TagLint.Rule.RootOnly
/-!
# The registry of rules

A registry holds rules of pairwise distinct names in the order of their registration. A rule whose name is
taken is refused and leaves the registry as it was.
-/

namespace TagLint

structure Registry where
  rules : List Rule
  distinct : (rules.map Rule.name).Nodup

/-- Why a rule is refused. -/
inductive RegistryError where
  | nameTaken (name : String)
deriving DecidableEq

def RegistryError.message : RegistryError → String
  | .nameTaken name => s!"rule '{name}' is already registered"

namespace Registry

/-- Without rules. -/
def empty : Registry := ⟨[], .nil⟩

/-- The names of the rules, in the order in which they run. -/
def names (r : Registry) : List String := r.rules.map Rule.name

/-- Adds a rule behind the others, unless its name is taken. -/
def register (r : Registry) (rule : Rule) : Except RegistryError Registry :=
  if h : rule.name ∈ r.names then .error (.nameTaken rule.name)
  else .ok ⟨r.rules ++ [rule], by
    rw [List.map_append, List.nodup_append]
    refine ⟨r.distinct, by simp, ?_⟩
    intro a ha b hb
    simp only [List.map_cons, List.map_nil, List.mem_singleton] at hb
    rintro rfl
    exact h (hb ▸ ha)⟩

/-- Adds rules one by one up to the first that is refused, and tells which were added. -/
def registerAll (r : Registry) : List Rule → List LogEvent × Except RegistryError Registry
  | [] => ([], .ok r)
  | rule :: rest =>
    match r.register rule with
    | .error e => ([], .error e)
    | .ok next =>
      let (events, result) := next.registerAll rest
      (.ruleRegistered rule.name :: events, result)

/-- The registry with a root-only rule for each of the element names. -/
def rootOnly (elements : List String) : List LogEvent × Except RegistryError Registry :=
  empty.registerAll (elements.map RootOnly.rule)

/-- Applies every rule to the same document. -/
def run (r : Registry) (root : Element) : List RuleResult := r.rules.map (·.check root)

end Registry

end TagLint
