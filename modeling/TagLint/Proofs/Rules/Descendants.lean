import TagLint.Proofs.Markup.Names
import TagLint.Proofs.Rules.RootOnly
import TagLint.Proofs.Tree.Addresses
/-!
# Elements below the root

An address leads below the root exactly to the elements that the walk visits. On an accepted text each of them has a
name as tags have it (`Element.Leads.isName`), and a registry with the rule for that name does not pass the text
(`Element.Leads.not_isValid`).
-/

namespace TagLint

variable {source : String} {root e target : Element} {es : List Element} {address : List Nat} {passed : List Element}
  {rules : Registry}

/-! ## Elements that are visited -/

/-- Each of some elements is visited, and so is all below it. -/
theorem preorder_of_mem (he : e ∈ es) (around : List Element) :
    ⟨e, around⟩ ∈ preorder around es ∧ preorder (e :: around) e.children ⊆ preorder around es := by
  induction es with
  | nil => cases he
  | cons d es ih =>
    rw [preorder]
    rcases List.mem_cons.1 he with rfl | he
    · exact ⟨List.mem_cons_self, fun v hv => List.mem_cons_of_mem _ (List.mem_append_left _ hv)⟩
    · obtain ⟨hhere, hbelow⟩ := ih he
      exact ⟨List.mem_cons_of_mem _ (List.mem_append_right _ hhere),
        fun v hv => List.mem_cons_of_mem _ (List.mem_append_right _ (hbelow hv))⟩

namespace Element

theorem Leads.exists_mem_preorder (h : e.Leads address passed target) (he : e ∈ es) (around : List Element) :
    ∃ v ∈ preorder around es, v.element = target := by
  induction h generalizing es around with
  | here => exact ⟨_, (preorder_of_mem he around).1, rfl⟩
  | down hchild _ ih =>
    obtain ⟨v, hv, hve⟩ := ih (List.mem_of_getElem? hchild) (_ :: around)
    exact ⟨v, (preorder_of_mem he around).2 hv, hve⟩

theorem Leads.exists_mem_walk (h : root.Leads address passed e) (hne : address ≠ []) : ∃ v ∈ root.walk, v.element = e := by
  rw [root.walk_eq]
  cases h with
  | here => exact absurd rfl hne
  | down hchild h => exact h.exists_mem_preorder (List.mem_of_getElem? hchild) [root]

end Element

/-! ## Their names -/

/-- The names of elements that tags write out are the names in the tags. -/
theorem Linearises.isName {tags : List Token} (h : Linearises tags es) (ht : ∀ t ∈ tags, t.Named)
    (around : List Element) : ∀ v ∈ preorder around es, IsName v.element.name.toList := by
  induction h generalizing around with
  | nil => rw [preorder]; exact List.forall_mem_nil _
  | selfClosing _ ih =>
    obtain ⟨hfirst, hrest⟩ := List.forall_mem_cons.1 ht
    rw [preorder, preorder, List.nil_append]
    exact List.forall_mem_cons.2 ⟨hfirst _ rfl, ih hrest around⟩
  | element _ _ ihinner ih =>
    obtain ⟨hfirst, hrest⟩ := List.forall_mem_cons.1 ht
    rw [List.forall_mem_append, List.forall_mem_cons] at hrest
    obtain ⟨hinner, -, hbehind⟩ := hrest
    rw [preorder, List.forall_mem_cons, List.forall_mem_append]
    exact ⟨hfirst _ rfl, ihinner hinner _, ih hbehind around⟩

namespace Element

theorem Leads.isName (h : checkWellFormed (tokenize source) = .ok root) (he : root.Leads address passed e) :
    IsName e.name.toList := by
  obtain ⟨tokens, htokens, -, hwritten⟩ := linearises_of_checkWellFormed h
  have hnamed : ∀ t ∈ tokens.filter Token.isTag, t.Named := by
    intro t ht
    have hmem : .ok t ∈ tokenize source := htokens ▸ List.mem_map_of_mem (List.mem_filter.1 ht).1
    exact named_of_mem_tokenize hmem
  obtain ⟨v, hv, rfl⟩ := he.exists_mem_preorder (List.mem_singleton_self root) []
  exact hwritten.isName hnamed [] v hv

/-! ## The rule for such a name -/

/-- The rule for the name of an element below the root has a finding. -/
theorem Leads.findings_ne_nil (he : root.Leads address passed e) (hne : address ≠ []) :
    RootOnly.findings e.name root ≠ [] := by
  obtain ⟨v, hv, rfl⟩ := he.exists_mem_walk hne
  have hfound : v ∈ root.walk.filter fun w => w.element.name == v.element.name := List.mem_filter.2 ⟨hv, beq_self_eq_true _⟩
  exact List.ne_nil_of_mem (List.mem_map_of_mem hfound)

/-- The text has a tree, and the result of the rule is not empty. -/
theorem Leads.exists_result (h : checkWellFormed (tokenize source) = .ok root) (he : root.Leads address passed e)
    (hne : address ≠ []) (hr : RootOnly.rule e.name ∈ rules.rules) : (validate source rules).wellFormedness = [] ∧
      ∃ r ∈ (validate source rules).ruleResults, r.rule = s!"root-only:{e.name}" ∧ r.diagnostics ≠ [] := by
  have hrun : validate source rules = ⟨[], rules.run root⟩ := by rw [validate, h]
  rw [hrun]
  refine ⟨rfl, (RootOnly.rule e.name).check root, List.mem_map_of_mem hr, rfl, ?_⟩
  exact mt List.map_eq_nil_iff.1 (he.findings_ne_nil hne)

theorem Leads.not_isValid (h : checkWellFormed (tokenize source) = .ok root) (he : root.Leads address passed e)
    (hne : address ≠ []) (hr : RootOnly.rule e.name ∈ rules.rules) : (validate source rules).isValid = false := by
  obtain ⟨-, r, hmem, -, hfound⟩ := he.exists_result h hne hr
  rw [Validation.isValid, Bool.and_eq_false_iff]
  right
  rw [List.all_eq_false]
  exact ⟨r, hmem, mt List.isEmpty_iff.1 hfound⟩

end Element

end TagLint
