import Mathlib.Data.List.Nodup
import TagLint.Proofs.Nesting.Linearisation
import TagLint.Proofs.Tree.Walk
import TagLint.Validation
/-!
# Elements that may only be the root, in the text

The rule walks the tree. What it finds is told by the tags of the text alone: each tag that begins an element of
the name, but for the first tag of all, with the names of the elements open there (`validate_rootOnly`).
-/

namespace TagLint

/-! ## Where elements begin -/

/-- An element as its tag tells it, with the names of the elements open there, outermost first. -/
structure Occurrence where
  name : String
  position : Position
  around : List String
deriving DecidableEq

/-- The elements that begin in tokens behind others, in their order. -/
def occurrencesFrom (before : List Token) : List Token → List Occurrence
  | [] => []
  | t :: rest =>
    (t.begins?.map fun name => ⟨name, t.position, (openTags before).reverse.map OpenTag.name⟩).toList
      ++ occurrencesFrom (before ++ [t]) rest

/-- The elements that begin in a stream, in its order: one for each open or self-closing tag. -/
def occurrences (tokens : List Token) : List Occurrence := occurrencesFrom [] tokens

/-- What is to be reported about an element that may only be the root and begins inside others. -/
def Occurrence.violation (o : Occurrence) : Diagnostic where
  kind := .structuralViolation
  position := some o.position
  message := s!"<{o.name}> may only appear as the document root, found inside " ++
    " > ".intercalate (o.around.map fun name => s!"<{name}>")
  rule := some s!"root-only:{o.name}"

theorem occurrencesFrom_append (before tokens more : List Token) :
    occurrencesFrom before (tokens ++ more) =
      occurrencesFrom before tokens ++ occurrencesFrom (before ++ tokens) more := by
  induction tokens generalizing before with
  | nil => simp [occurrencesFrom]
  | cons t tokens ih => simp [occurrencesFrom, ih]

theorem openTags_append (tokens more : List Token) :
    openTags (tokens ++ more) = more.foldl Token.nest (openTags tokens) := by
  simp [openTags]

/-- Only the tags of a stream tell what is open. -/
theorem openTags_filter (tokens : List Token) : openTags (tokens.filter Token.isTag) = openTags tokens := by
  have hnest (t : Token) (ht : t.isTag = false) (opened : List OpenTag) : t.nest opened = opened := by
    obtain ⟨kind, position⟩ := t
    cases kind with
    | comment | declaration | text => rfl
    | _ => cases ht
  unfold openTags
  generalize ([] : List OpenTag) = opened
  induction tokens generalizing opened with
  | nil => rfl
  | cons t tokens ih =>
    cases ht : t.isTag with
    | true => simp [List.filter_cons_of_pos ht, ih]
    | false => simp [ht, hnest t ht, ih]

theorem occurrencesFrom_filter (before tokens : List Token) :
    occurrencesFrom (before.filter Token.isTag) (tokens.filter Token.isTag) = occurrencesFrom before tokens := by
  induction tokens generalizing before with
  | nil => rfl
  | cons t tokens ih =>
    have hrest := ih (before ++ [t])
    rw [List.filter_append] at hrest
    cases ht : t.isTag with
    | true =>
      rw [List.filter_cons_of_pos ht] at hrest ⊢
      simp only [occurrencesFrom, openTags_filter, ← hrest, List.filter_nil]
    | false =>
      have hb : t.begins? = none := by
        obtain ⟨kind, position⟩ := t
        cases kind with
        | comment | declaration | text => rfl
        | _ => cases ht
      rw [List.filter_cons_of_neg (by simp [ht])] at hrest ⊢
      simpa [occurrencesFrom, hb] using hrest

/-! ## From the tags to the walk -/

/-- What the tag of a visited element tells. -/
def Visit.occurrence (v : Visit) : Occurrence :=
  ⟨v.element.name, v.element.position, v.ancestors.reverse.map Element.name⟩

/-- The tags of elements written out tell what a walk through the elements meets. -/
theorem Linearises.occurrencesFrom_eq {tags : List Token} {es : List Element} (h : Linearises tags es)
    (before : List Token) (around : List Element)
    (hopen : (openTags before).map OpenTag.name = around.map Element.name) :
    occurrencesFrom before tags = (preorder around es).map Visit.occurrence := by
  -- By induction on how the tags are written: an open tag is around what is written inside it, and behind its
  -- close tag the same is open as before it.
  induction h generalizing before around with
  | nil => simp [occurrencesFrom, preorder]
  | @selfClosing name attributes position tags es _ ih =>
    have hbehind : openTags (before ++ [⟨.selfClosingTag name attributes, position⟩]) = openTags before :=
      openTags_concat ..
    simp [occurrencesFrom, preorder, Token.begins?, Visit.occurrence, ih _ around (hbehind ▸ hopen), ← hopen]
  | @element name attributes position closed inner tags children es hinner _ ihinner ih =>
    have hinside : openTags (before ++ [⟨.openTag name attributes, position⟩]) =
        ⟨name, attributes, position⟩ :: openTags before := openTags_concat ..
    have hbehind : openTags (before ++ [⟨.openTag name attributes, position⟩] ++ inner ++
        [⟨.closeTag name, closed⟩]) = openTags before := by
      rw [openTags_concat, openTags_append, hinner.foldl_nest, hinside]
      rfl
    have hin := ihinner _ (⟨name, attributes, children, position⟩ :: around) (by rw [hinside]; simp [hopen])
    have hrest := ih _ around (hbehind ▸ hopen)
    simp only [occurrencesFrom, occurrencesFrom_append, hin, hrest, preorder, List.map_cons, List.map_append]
    simp [Token.begins?, Visit.occurrence, ← hopen]

theorem RootOnly.finding_eq (v : Visit) :
    (RootOnly.finding v).withRule (RootOnly.ruleName v.element.name) = v.occurrence.violation := by
  have hchain : v.occurrence.around.map (fun name => s!"<{name}>") =
      v.ancestors.reverse.map (fun a => s!"<{a.name}>") := List.map_map
  rw [Occurrence.violation, hchain]
  rfl

/-- What the rule finds in a tree that tags write out. -/
theorem RootOnly.check_eq {tokens : List Token} {root : Element} (h : Linearises (tokens.filter Token.isTag) [root])
    (name : String) : (RootOnly.rule name).check root =
      ⟨s!"root-only:{name}", ((occurrences tokens).tail.filter fun o => o.name = name).map Occurrence.violation⟩ := by
  have hvisits := h.occurrencesFrom_eq [] [] rfl
  rw [← List.filter_nil (p := Token.isTag), occurrencesFrom_filter] at hvisits
  have hbelow : (occurrences tokens).tail = root.walk.map Visit.occurrence := by
    rw [occurrences, hvisits, preorder, List.map_cons, List.tail_cons, root.walk_eq]
    simp [preorder]
  have hname : ((fun o => decide (o.name = name)) ∘ Visit.occurrence) = fun v => v.element.name == name := rfl
  rw [hbelow, List.filter_map, hname, List.map_map]
  simp only [Rule.check, RootOnly.rule, RootOnly.findings, List.map_map]
  congr 1
  refine List.map_congr_left fun v hv => ?_
  obtain rfl : v.element.name = name := by simpa using (List.mem_filter.1 hv).2
  exact RootOnly.finding_eq v

/-! ## Main theorem -/

/-- The findings of the root-only rule for a name on an accepted text are its tags that begin an element of the
name, in their order and without the first tag of the text: each finding stands at its tag and names the elements
open there, outermost first. -/
theorem validate_rootOnly {source : String} {root : Element} {rules : Registry} {name : String}
    (h : checkWellFormed (tokenize source) = .ok root) (hr : RootOnly.rule name ∈ rules.rules) :
    ∃ tokens, tokenize source = tokens.map .ok ∧ (validate source rules).wellFormedness = [] ∧
      ∀ r, (r ∈ (validate source rules).ruleResults ∧ r.rule = s!"root-only:{name}") ↔
        r = ⟨s!"root-only:{name}", ((occurrences tokens).tail.filter fun o => o.name = name).map Occurrence.violation⟩ := by
  obtain ⟨tokens, htokens, -, hwritten⟩ := linearises_of_checkWellFormed h
  refine ⟨tokens, htokens, by simp [validate, h], fun r => ?_⟩
  rw [← RootOnly.check_eq hwritten name]
  simp only [validate, h, Registry.run, List.mem_map]
  constructor
  · rintro ⟨⟨rule, hm, rfl⟩, hname⟩
    -- The names of a registry are distinct, so this is the only rule of its name.
    rw [List.inj_on_of_nodup_map rules.distinct hm hr hname]
  · rintro rfl
    exact ⟨⟨_, hr, rfl⟩, rfl⟩

/-- An element inside one of its own name is found, and the root is not. -/
theorem validate_rootOnly_inside_itself : ∃ root rules,
    checkWellFormed (tokenize "<a><b><a/></b></a>") = .ok root ∧ (Registry.rootOnly ["a"]).2 = .ok rules ∧
      RootOnly.rule "a" ∈ rules.rules ∧ (validate "<a><b><a/></b></a>" rules).wellFormedness = [] ∧
      ∀ r ∈ (validate "<a><b><a/></b></a>" rules).ruleResults, r.rule = "root-only:a" → r.diagnostics =
        [⟨.structuralViolation, some ⟨1, 7, 6⟩, "<a> may only appear as the document root, found inside <a> > <b>",
          some "root-only:a"⟩] := by
  have hok : (checkWellFormed (tokenize "<a><b><a/></b></a>")).isOk = true := by decide +kernel
  cases h : checkWellFormed (tokenize "<a><b><a/></b></a>") with
  | error ds => rw [h] at hok; cases hok
  | ok root =>
    have hr : RootOnly.rule "a" ∈ (⟨[RootOnly.rule "a"], List.nodup_singleton _⟩ : Registry).rules :=
      List.mem_singleton_self _
    obtain ⟨tokens, htokens, hwell, hresult⟩ := validate_rootOnly h hr
    refine ⟨root, _, rfl, rfl, hr, hwell, fun r hm hname => ?_⟩
    rw [(hresult r).1 ⟨hm, hname⟩]
    have hvalue : ((tokenize "<a><b><a/></b></a>").filterMap Except.toOption) = tokens := by
      simp [htokens, List.filterMap_map, Function.comp_def, Except.toOption]
    rw [← hvalue]
    decide +kernel

end TagLint
