import TagLint.Proofs.Markup.Spots
import TagLint.Proofs.Rules.Registration
import TagLint.Proofs.Tree.Walk
/-!
# Validation does not depend on the style of line ends

What the rules find in a tree is told by its names and places alone, so in a relabelled tree they find the same,
relabelled. With that the findings on a text are the same in each style, line by line and column by column
(`validate_rewrite`).
-/

namespace TagLint

variable (r : Relabelling)

/-! ## Rules on a relabelled tree -/

theorem Element.children_relabel (e : Element) : (e.relabel r).children = e.children.map (Element.relabel r) := by
  rw [relabel]

theorem Element.name_relabel (e : Element) : (e.relabel r).name = e.name := by
  rw [relabel]

theorem Element.position_relabel (e : Element) : (e.relabel r).position = r.place e.position := by
  rw [relabel]

def Visit.relabel (v : Visit) : Visit := ⟨v.element.relabel r, v.ancestors.map (Element.relabel r)⟩

theorem preorder_relabel (around es : List Element) :
    preorder (around.map (Element.relabel r)) (es.map (Element.relabel r)) =
      (preorder around es).map (Visit.relabel r) := by
  fun_induction preorder around es with
  | case1 => rw [List.map_nil, preorder]; rfl
  | case2 around e rest ihbelow ihrest =>
    rw [List.map_cons, preorder, Element.children_relabel, ihrest]
    rw [List.map_cons] at ihbelow
    rw [ihbelow]
    simp [Visit.relabel]

def RuleResult.relabel (result : RuleResult) : RuleResult :=
  ⟨result.rule, result.diagnostics.map (Diagnostic.relabel r)⟩

namespace RootOnly

theorem finding_relabel (v : Visit) : finding (v.relabel r) = (finding v).relabel r := by
  have hchain : chain (v.relabel r).ancestors = chain v.ancestors := by
    simp [chain, Visit.relabel, ← List.map_reverse, Element.name_relabel, Function.comp_def]
  rw [finding, hchain, Visit.relabel, Element.name_relabel, Element.position_relabel]
  rfl

theorem check_relabel (name : String) (root : Element) :
    (rule name).check (root.relabel r) = ((rule name).check root).relabel r := by
  have hwalk : (root.relabel r).walk = root.walk.map (Visit.relabel r) := by
    rw [Element.walk_eq, Element.walk_eq, Element.children_relabel, ← preorder_relabel]
    rfl
  have hname : (fun v : Visit => v.element.name == name) ∘ Visit.relabel r = fun v => v.element.name == name := by
    funext v
    simp [Visit.relabel, Element.name_relabel]
  have hfindings : findings name (root.relabel r) = (findings name root).map (Diagnostic.relabel r) := by
    rw [findings, hwalk, List.filter_map, hname, List.map_map, findings, List.map_map]
    exact List.map_congr_left fun v _ => finding_relabel r v
  simp only [Rule.check, rule, hfindings, RuleResult.relabel, List.map_map]
  rfl

end RootOnly

namespace Registry

/-- The root-only rules find in a relabelled tree what they find in the tree, relabelled. -/
theorem run_relabel {names : List String} {registry : Registry} (h : (rootOnly names).2 = .ok registry)
    (root : Element) : registry.run (root.relabel r) = (registry.run root).map (RuleResult.relabel r) := by
  simp only [run, rules_of_rootOnly h, List.map_map]
  exact List.map_congr_left fun name _ => RootOnly.check_relabel r name root

end Registry

/-! ## Main theorem -/

def Validation.relabel (v : Validation) : Validation :=
  ⟨v.wellFormedness.map (Diagnostic.relabel r), v.ruleResults.map (RuleResult.relabel r)⟩

/-- Of a text without carriage returns and the same text in another style of line ends the findings are the same,
but for the offsets of their places. So are the trees, with the values of attributes in the style. -/
theorem validate_rewrite {source : String} {names : List String} {rules : Registry} (hr : '\r' ∉ source.toList)
    (hn : (Registry.rootOnly names).2 = .ok rules) (style : LineEnding) :
    (validate (style.rewrite source) rules).relabel .withoutOffsets = (validate source rules).relabel .withoutOffsets ∧
      (checkWellFormed (tokenize (style.rewrite source))).toOption.map (Element.relabel .withoutOffsets) =
        (checkWellFormed (tokenize source)).toOption.map fun root =>
          (root.relabel (.inStyle style)).relabel .withoutOffsets := by
  have hresult := checkWellFormed_relabel .withoutOffsets (tokenize (style.rewrite source))
  rw [tokenize_rewrite hr, checkWellFormed_relabel, checkWellFormed_relabel] at hresult
  -- The style is told by texts alone, and a finding has none of them.
  have hdiagnostics : Diagnostic.relabel (.inStyle style) = id := by
    funext d
    simp [Diagnostic.relabel, Relabelling.inStyle]
  have hresults : RuleResult.relabel (.inStyle style) = id := by
    funext result
    simp [RuleResult.relabel, hdiagnostics]
  unfold validate
  cases hstyled : checkWellFormed (tokenize (style.rewrite source)) with
  | error styled =>
    cases hplain : checkWellFormed (tokenize source) with
    | ok root => rw [hstyled, hplain] at hresult; cases hresult
    | error plain =>
      rw [hstyled, hplain] at hresult
      have hfindings : (plain.map (Diagnostic.relabel (.inStyle style))).map (Diagnostic.relabel .withoutOffsets) =
          styled.map (Diagnostic.relabel .withoutOffsets) := Except.error.inj hresult
      rw [hdiagnostics, List.map_id] at hfindings
      exact ⟨by simp only [Validation.relabel, hfindings], rfl⟩
  | ok styled =>
    cases hplain : checkWellFormed (tokenize source) with
    | error plain => rw [hstyled, hplain] at hresult; cases hresult
    | ok plain =>
      rw [hstyled, hplain] at hresult
      have hroot : (plain.relabel (.inStyle style)).relabel .withoutOffsets = styled.relabel .withoutOffsets :=
        Except.ok.inj hresult
      refine ⟨?_, congrArg some hroot.symm⟩
      simp only [Validation.relabel, ← Registry.run_relabel _ hn, ← hroot]
      rw [Registry.run_relabel _ hn, Registry.run_relabel _ hn, hresults, List.map_id, Registry.run_relabel _ hn]

/-- An element below the root is found in the second line, however the first one ends. -/
theorem validate_rewrite_second_line : ∃ rules, (Registry.rootOnly ["b"]).2 = .ok rules ∧
    ∀ source ∈ ["<a>\n<b/></a>", "<a>\r\n<b/></a>", "<a>\r<b/></a>"],
      (validate source rules).relabel .withoutOffsets = ⟨[], [⟨"root-only:b", [⟨.structuralViolation, some ⟨2, 1, 0⟩,
        "<b> may only appear as the document root, found inside <a>", some "root-only:b"⟩]⟩]⟩ := by
  have hrules : (Registry.rootOnly ["b"]).2 = .ok ⟨[RootOnly.rule "b"], by simp⟩ := rfl
  have hplain : (validate "<a>\n<b/></a>" ⟨[RootOnly.rule "b"], by simp⟩).relabel .withoutOffsets =
      ⟨[], [⟨"root-only:b", [⟨.structuralViolation, some ⟨2, 1, 0⟩,
        "<b> may only appear as the document root, found inside <a>", some "root-only:b"⟩]⟩]⟩ := by decide +kernel
  have hr : '\r' ∉ "<a>\n<b/></a>".toList := by decide
  refine ⟨_, hrules, fun source hs => ?_⟩
  simp only [List.mem_cons, List.not_mem_nil, or_false] at hs
  rcases hs with rfl | rfl | rfl
  · exact hplain
  · exact (validate_rewrite hr hrules .returnAndFeed).1.trans hplain
  · exact (validate_rewrite hr hrules .carriageReturn).1.trans hplain

end TagLint
