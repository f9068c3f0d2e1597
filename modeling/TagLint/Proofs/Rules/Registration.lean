import Mathlib.Data.List.Forall2
import Mathlib.Data.List.Induction
import Mathlib.Data.List.Nodup
import TagLint.Proofs.List.Firsts
import TagLint.Proofs.Nesting.Faults
import TagLint.Run.Verdict
/-!
# Registered rules and what they report

A registry behind any calls holds the first rule of each name, in the order of the calls. Each rule reports on an
accepted text what it finds by itself, whatever else is registered, and on a refused text no rule reports anything.
The verdict on a text is made of the findings of the two phases, and its parts agree on whether there are any
(`validate_ofCalls`). Rules for distinct elements can all be registered (`Registry.rootOnly_of_nodup`).
-/

namespace TagLint

theorem RootOnly.ruleName_injective : Function.Injective ruleName := by
  intro name name' h
  have h : "root-only:" ++ name = "root-only:" ++ name' := h
  simpa using h

/-! ## Calls to register rules -/

namespace Registry

/-- The registry behind one call to register a rule. If the rule is refused, it is the registry before the call. -/
def offer (r : Registry) (rule : Rule) : Registry :=
  match r.register rule with
  | .ok next => next
  | .error _ => r

/-- The registry behind calls to register rules, from the empty one on. -/
def ofCalls (calls : List Rule) : Registry := calls.foldl offer empty

section

variable {r : Registry} {rule : Rule}

/-- A rule of a name that is taken is refused. -/
theorem register_of_mem (h : rule.name ∈ r.names) : r.register rule = .error (.nameTaken rule.name) :=
  dif_pos h

/-- Any other rule goes behind those registered before. -/
theorem register_of_notMem (h : rule.name ∉ r.names) :
    ∃ next, r.register rule = .ok next ∧ next.rules = r.rules ++ [rule] :=
  ⟨_, dif_neg h, rfl⟩

theorem offer_of_mem (h : rule.name ∈ r.names) : r.offer rule = r := by
  rw [offer, register_of_mem h]

theorem offer_of_notMem (h : rule.name ∉ r.names) :
    r.register rule = .ok (r.offer rule) ∧ (r.offer rule).rules = r.rules ++ [rule] := by
  obtain ⟨next, hnext, hrules⟩ := register_of_notMem h
  rw [offer, hnext]
  exact ⟨rfl, hrules⟩

theorem rules_prefix_offer (r : Registry) (rule : Rule) : r.rules <+: (r.offer rule).rules := by
  by_cases h : rule.name ∈ r.names
  · exact ⟨[], by rw [offer_of_mem h, List.append_nil]⟩
  · exact ⟨[rule], (offer_of_notMem h).2.symm⟩

end

theorem ofCalls_concat (calls : List Rule) (rule : Rule) : ofCalls (calls ++ [rule]) = (ofCalls calls).offer rule := by
  simp [ofCalls]

/-- Of the calls for a name the first one counts. -/
theorem firsts_ofCalls (calls : List Rule) : Firsts Rule.name calls (ofCalls calls).rules := by
  induction calls using List.reverseRecOn with
  | nil => exact .nil
  | append_singleton calls rule ih =>
    rw [ofCalls_concat]
    by_cases h : rule.name ∈ (ofCalls calls).names
    · rw [offer_of_mem h]
      exact .repeated ih ((ih.mem_map_iff _).1 h)
    · rw [(offer_of_notMem h).2]
      exact .first ih (mt (ih.mem_map_iff _).2 h)

theorem mem_names_ofCalls {calls : List Rule} {name : String} :
    name ∈ (ofCalls calls).names ↔ name ∈ calls.map Rule.name :=
  (firsts_ofCalls calls).mem_map_iff name

/-- What is registered stays registered. -/
theorem rules_prefix_ofCalls (calls more : List Rule) : (ofCalls calls).rules <+: (ofCalls (calls ++ more)).rules := by
  induction more using List.reverseRecOn with
  | nil => exact ⟨[], by rw [List.append_nil, List.append_nil]⟩
  | append_singleton more rule ih =>
    rw [← List.append_assoc, ofCalls_concat]
    exact ih.trans (rules_prefix_offer _ _)

/-! ## Lists of rules -/

/-- Rules of distinct names that are not taken are all registered, in their order. -/
theorem registerAll_of_nodup {r : Registry} {rules : List Rule}
    (h : (r.names ++ rules.map Rule.name).Nodup) :
    ∃ registry, r.registerAll rules = (rules.map (.ruleRegistered ·.name), .ok registry) ∧
      registry.rules = r.rules ++ rules := by
  induction rules generalizing r with
  | nil => exact ⟨r, rfl, (List.append_nil _).symm⟩
  | cons rule rules ih =>
    have hfree : rule.name ∉ r.names := by
      intro hm
      exact (List.nodup_append.1 h).2.2 _ hm _ List.mem_cons_self rfl
    obtain ⟨next, hnext, hrules⟩ := register_of_notMem hfree
    have hnames : next.names = r.names ++ [rule.name] := by rw [names, hrules, List.map_append, names]; rfl
    obtain ⟨registry, hall, hregistry⟩ := ih (r := next) (by rw [hnames, List.append_assoc]; exact h)
    refine ⟨registry, by simp only [registerAll, hnext, hall, List.map_cons], ?_⟩
    rw [hregistry, hrules, List.append_assoc]
    rfl

/-- Where rules are registered one by one and none is refused, they go behind the others. -/
theorem rules_of_registerAll {r registry : Registry} {rules : List Rule}
    (h : (r.registerAll rules).2 = .ok registry) : registry.rules = r.rules ++ rules := by
  induction rules generalizing r with
  | nil =>
    obtain rfl := Except.ok.inj h
    exact (List.append_nil _).symm
  | cons rule rules ih =>
    rw [registerAll] at h
    by_cases hname : rule.name ∈ r.names
    · rw [register_of_mem hname] at h
      cases h
    · obtain ⟨next, hnext, hrules⟩ := register_of_notMem hname
      rw [hnext] at h
      rw [ih h, hrules, List.append_assoc]
      rfl

theorem rules_of_rootOnly {elements : List String} {registry : Registry} (h : (rootOnly elements).2 = .ok registry) :
    registry.rules = elements.map RootOnly.rule :=
  rules_of_registerAll h

/-- Distinct elements can all be declared to be allowed only as the root. -/
theorem rootOnly_of_nodup {elements : List String} (h : elements.Nodup) :
    ∃ registry, rootOnly elements = (elements.map fun e => .ruleRegistered s!"root-only:{e}", .ok registry) ∧
      registry.rules = elements.map RootOnly.rule ∧ registry.names = elements.map fun e => s!"root-only:{e}" := by
  have hnames : ((elements.map RootOnly.rule).map Rule.name) = elements.map RootOnly.ruleName := by
    rw [List.map_map]
    rfl
  have hnodup : (empty.names ++ (elements.map RootOnly.rule).map Rule.name).Nodup := by
    rw [hnames]
    exact h.map RootOnly.ruleName_injective
  obtain ⟨registry, hall, hrules⟩ := registerAll_of_nodup hnodup
  refine ⟨registry, ?_, hrules, ?_⟩
  · rw [rootOnly, hall, List.map_map]
    rfl
  · rw [names, hrules]
    exact hnames

end Registry

/-! ## Reports -/

/-- What a rule reports on a document: what it finds, in the same order, each finding under the name of the rule and
else as the rule made it. -/
structure RuleResult.Reports (result : RuleResult) (rule : Rule) (root : Element) : Prop where
  name : result.rule = rule.name
  diagnostics : List.Forall₂ (fun own d => d = ⟨own.kind, own.position, own.message, some rule.name⟩)
    (rule.findings root) result.diagnostics

theorem Rule.check_reports (rule : Rule) (root : Element) : (rule.check root).Reports rule root where
  name := rfl
  diagnostics := by
    rw [check, List.forall₂_map_right_iff, List.forall₂_same]
    exact fun d _ => rfl

/-- The rules of a registry run on a text if it is well-formed, and only then. -/
structure Validation.InPhases (v : Validation) (source : String) (rules : List Rule) : Prop where
  refused : (¬ ∃ root, checkWellFormed (tokenize source) = .ok root) → v.wellFormedness ≠ [] ∧ v.ruleResults = []
  accepted : ∀ root, checkWellFormed (tokenize source) = .ok root →
    v.wellFormedness = [] ∧ List.Forall₂ (fun rule result => result.Reports rule root) rules v.ruleResults

theorem validate_inPhases (source : String) (registry : Registry) :
    (validate source registry).InPhases source registry.rules := by
  unfold validate
  cases hc : checkWellFormed (tokenize source) with
  | ok root =>
    refine ⟨fun h => absurd ⟨root, hc⟩ h, fun root' h => ⟨rfl, ?_⟩⟩
    obtain rfl : root = root' := Except.ok.inj (hc.symm.trans h)
    show List.Forall₂ _ registry.rules (registry.rules.map (·.check root))
    rw [List.forall₂_map_right_iff, List.forall₂_same]
    exact fun rule _ => rule.check_reports root
  | error ds => exact ⟨fun _ => ⟨ne_nil_of_checkWellFormed hc, rfl⟩, fun root h => by rw [hc] at h; cases h⟩

/-- The verdict on a text: all findings, those on well-formedness first, and the one answer to whether there are
any. -/
structure FileVerdict.Sums (verdict : FileVerdict) (v : Validation) (source : String) (rules : List Rule) : Prop where
  diagnostics : verdict.diagnostics = v.wellFormedness ++ (v.ruleResults.map RuleResult.diagnostics).flatten
  passed : verdict.passed ↔ verdict.diagnostics = []
  isValid : verdict.passed ↔ v.isValid
  clean : verdict.passed ↔ ∃ root, checkWellFormed (tokenize source) = .ok root ∧ ∀ rule ∈ rules, rule.findings root = []

theorem FileVerdict.ofValidation_sums (path : Path) (source : String) (registry : Registry) :
    (ofValidation path (validate source registry)).Sums (validate source registry) source registry.rules where
  diagnostics := rfl
  passed := List.isEmpty_iff
  isValid := by simp [ofValidation, ofDiagnostics, Validation.isValid]
  clean := by
    unfold validate
    cases hc : checkWellFormed (tokenize source) with
    | ok root => simp [ofValidation, ofDiagnostics, Registry.run, Rule.check]
    | error ds => simp [ofValidation, ofDiagnostics, ne_nil_of_checkWellFormed hc]

/-! ## No rule bears on another -/

theorem validate_wellFormedness (source : String) (r r' : Registry) :
    (validate source r).wellFormedness = (validate source r').wellFormedness := by
  unfold validate
  cases checkWellFormed (tokenize source) <;> rfl

/-- More rules behind those registered change no entry. -/
theorem validate_prefix {r r' : Registry} (h : r.rules <+: r'.rules) (source : String) :
    (validate source r).ruleResults <+: (validate source r').ruleResults := by
  unfold validate
  cases checkWellFormed (tokenize source) with
  | ok root => exact h.map _
  | error ds => exact List.prefix_rfl

/-- The entry of a rule is the same in all registries that hold it. -/
theorem mem_ruleResults_iff {r r' : Registry} {rule : Rule} (h : rule ∈ r.rules) (h' : rule ∈ r'.rules)
    (source : String) {result : RuleResult} (hname : result.rule = rule.name) :
    result ∈ (validate source r).ruleResults ↔ result ∈ (validate source r').ruleResults := by
  have hone {root : Element} {r : Registry} (h : rule ∈ r.rules) : result ∈ r.run root ↔ result = rule.check root := by
    simp only [Registry.run, List.mem_map]
    constructor
    · rintro ⟨other, hother, rfl⟩
      rw [List.inj_on_of_nodup_map r.distinct hother h hname]
    · rintro rfl
      exact ⟨rule, h, rfl⟩
  unfold validate
  cases checkWellFormed (tokenize source) with
  | ok root => exact (hone h).trans (hone h').symm
  | error ds => exact Iff.rfl

/-! ## Main theorem -/

/-- Behind any calls a registry holds the first rule of each name, and a call for a name that is taken is an error and
changes nothing. A text that is refused is reported for its form alone; on an accepted one each rule reports its own
findings, in the order of registration, and further calls or other rules change none of its entries. The verdict holds
all of this, form first, and passes exactly if there is nothing. -/
theorem validate_ofCalls (calls : List Rule) :
    let registry := Registry.ofCalls calls
    Firsts Rule.name calls registry.rules ∧
    (∀ rule, rule.name ∈ calls.map Rule.name →
      registry.register rule = .error (.nameTaken rule.name) ∧ Registry.ofCalls (calls ++ [rule]) = registry) ∧
    (∀ rule, rule.name ∉ calls.map Rule.name → registry.register rule = .ok (Registry.ofCalls (calls ++ [rule]))) ∧
    ∀ source : String,
      (validate source registry).InPhases source registry.rules ∧
      (∀ path, (FileVerdict.ofValidation path (validate source registry)).Sums (validate source registry) source
        registry.rules) ∧
      (∀ more, (validate source registry).wellFormedness =
          (validate source (Registry.ofCalls (calls ++ more))).wellFormedness ∧
        (validate source registry).ruleResults <+:
          (validate source (Registry.ofCalls (calls ++ more))).ruleResults) ∧
      ∀ (others : List Rule) (rule : Rule), rule ∈ registry.rules → rule ∈ (Registry.ofCalls others).rules →
        ∀ result : RuleResult, result.rule = rule.name →
          (result ∈ (validate source registry).ruleResults ↔
            result ∈ (validate source (Registry.ofCalls others)).ruleResults) := by
  refine ⟨Registry.firsts_ofCalls calls, fun rule h => ?_, fun rule h => ?_, fun source => ⟨validate_inPhases _ _,
    fun path => FileVerdict.ofValidation_sums _ _ _, fun more => ⟨validate_wellFormedness _ _ _, ?_⟩,
    fun others rule h h' result hname => mem_ruleResults_iff h h' source hname⟩⟩
  · have hm := Registry.mem_names_ofCalls.2 h
    exact ⟨Registry.register_of_mem hm, by rw [Registry.ofCalls_concat, Registry.offer_of_mem hm]⟩
  · rw [Registry.ofCalls_concat]
    exact (Registry.offer_of_notMem (mt Registry.mem_names_ofCalls.1 h)).1
  · exact validate_prefix (Registry.rules_prefix_ofCalls calls more) source

end TagLint
