import TagLint.Proofs.Markup.Quotations
import TagLint.Proofs.Rules.DocumentOrder
import TagLint.Proofs.Rules.Registration
/-!
# Messages on one line

Findings quote a text: characters of it, the names of elements and attributes, the bodies of references, chains of
elements. Whatever the text is, and whatever elements may only be its root, no message and no rule name of a finding
breaks a line (`Diagnostic.unbroken_of_validate`).
-/

namespace TagLint

/-! ## Names in a stream -/

section

variable {tokens : List Token} {name : String}

theorem TokenItem.Unbroken.begins? {t : Token} (h : TokenItem.Unbroken (.ok t)) (hb : t.begins? = some name) :
    TagLint.Unbroken name := by
  obtain ⟨kind, position⟩ := t
  cases kind with
  | openTag | selfClosingTag => exact h name hb
  | _ => cases hb

theorem unbroken_of_firstName? (h : ∀ t ∈ tokens, TokenItem.Unbroken (.ok t)) (hf : firstName? tokens = some name) :
    Unbroken name := by
  obtain ⟨t, ht, hb⟩ := List.exists_of_findSome?_eq_some hf
  exact (h t ht).begins? hb

theorem unbroken_of_mem_openTags (h : ∀ t ∈ tokens, TokenItem.Unbroken (.ok t)) :
    ∀ e ∈ openTags tokens, Unbroken e.name := by
  induction tokens using List.reverseRecOn with
  | nil => exact List.forall_mem_nil _
  | append_singleton tokens t ih =>
    rw [List.forall_mem_append, List.forall_mem_singleton] at h
    have hopen := ih h.1
    rw [openTags_concat]
    obtain ⟨kind, position⟩ := t
    cases kind with
    | openTag name attributes => exact List.forall_mem_cons.2 ⟨h.2 name rfl, hopen⟩
    | closeTag name => exact fun e he => hopen e (List.mem_of_mem_tail he)
    | _ => exact hopen

end

/-! ## Faults of the nesting -/

/-- The parts of a text that a message about its nesting quotes. -/
def NestingFault.quoted : NestingFault → List String
  | .syntaxError error => [error.message]
  | .textOutsideRoot _ | .noRoot => []
  | .secondRoot name root _ => [name, root]
  | .closeWithoutOpen name _ | .unclosed name _ => [name]
  | .mismatchedClose expected found _ _ => [expected, found]

/-- What a fault says quotes nothing that breaks a line. -/
def NestingFault.QuotesUnbroken (fault : NestingFault) : Prop := ∀ s ∈ fault.quoted, Unbroken s

theorem NestingFault.QuotesUnbroken.message {fault : NestingFault} (h : fault.QuotesUnbroken) :
    Unbroken fault.message := by
  unfold QuotesUnbroken at h
  cases fault with
  | syntaxError error => exact h error.message List.mem_cons_self
  | textOutsideRoot | noRoot => exact unbroken_literal rfl
  | _ =>
    simp only [quoted, List.forall_mem_cons, List.not_mem_nil, false_implies, implies_true, and_true] at h
    unfold NestingFault.message
    simp only [unbroken_append, unbroken_toString, Position.unbroken_display, h, and_true]
    and_intros <;> exact unbroken_literal rfl

theorem quotesUnbroken_of_recoveredFault? {before : List Token} {t : Token} {fault : NestingFault}
    (hbefore : ∀ t ∈ before, TokenItem.Unbroken (.ok t)) (ht : TokenItem.Unbroken (.ok t))
    (h : recoveredFault? before t = some fault) : fault.QuotesUnbroken := by
  obtain ⟨kind, position⟩ := t
  unfold recoveredFault? at h
  split at h
  next =>
    cases kind with
    | comment | declaration => cases h
    | text content cdata =>
      simp only at h
      split at h
      next => cases h
      next =>
        obtain rfl := Option.some.inj h
        exact List.forall_mem_nil _
    | closeTag name =>
      obtain rfl := Option.some.inj h
      exact List.forall_mem_singleton.2 (ht name rfl)
    | openTag name attributes | selfClosingTag name attributes =>
      obtain ⟨root, hroot, rfl⟩ := Option.map_eq_some_iff.1 h
      exact List.forall_mem_cons.2 ⟨ht name rfl, List.forall_mem_singleton.2 (unbroken_of_firstName? hbefore hroot)⟩
  next => cases h

theorem quotesUnbroken_of_mem_recoveredFrom {before tokens : List Token} {fault : NestingFault}
    (hbefore : ∀ t ∈ before, TokenItem.Unbroken (.ok t)) (htokens : ∀ t ∈ tokens, TokenItem.Unbroken (.ok t))
    (h : fault ∈ recoveredFrom before tokens) : fault.QuotesUnbroken := by
  induction tokens generalizing before with
  | nil => cases h
  | cons t tokens ih =>
    obtain ⟨ht, htokens⟩ := List.forall_mem_cons.1 htokens
    rw [recoveredFrom, List.mem_append, Option.mem_toList] at h
    rcases h with h | h
    · exact quotesUnbroken_of_recoveredFault? hbefore ht h
    · exact ih (List.forall_mem_append.2 ⟨hbefore, List.forall_mem_singleton.2 ht⟩) htokens h

theorem quotesUnbroken_of_mem_finalFaults {tokens : List Token} {fault : NestingFault}
    (htokens : ∀ t ∈ tokens, TokenItem.Unbroken (.ok t)) (h : fault ∈ finalFaults tokens) : fault.QuotesUnbroken := by
  rw [finalFaults, List.mem_append] at h
  rcases h with h | h
  · obtain ⟨e, he, rfl⟩ := List.mem_map.1 h
    exact List.forall_mem_singleton.2 (unbroken_of_mem_openTags htokens e (List.mem_reverse.1 he))
  · split at h
    · obtain rfl := List.mem_singleton.1 h
      exact List.forall_mem_nil _
    · cases h

theorem EndsScan.quotesUnbroken {before : List Token} {item : TokenItem} {fault : NestingFault}
    (hbefore : ∀ t ∈ before, TokenItem.Unbroken (.ok t)) (hitem : item.Unbroken) (h : EndsScan before item fault) :
    fault.QuotesUnbroken := by
  cases h with
  | syntaxError e => exact List.forall_mem_singleton.2 hitem
  | @mismatchedClose e rest name position hopen hne =>
    have he : Unbroken e.name := unbroken_of_mem_openTags hbefore e (hopen ▸ List.mem_cons_self)
    exact List.forall_mem_cons.2 ⟨he, List.forall_mem_singleton.2 (hitem name rfl)⟩

theorem quotesUnbroken_of_mem_streamFaults {items rest : List TokenItem} {tokens : List Token}
    {stop? : Option NestingFault} {fault : NestingFault} (hs : Scan [] items tokens stop? rest)
    (hitems : ∀ item ∈ items, item.Unbroken) (h : fault ∈ streamFaults tokens stop?) : fault.QuotesUnbroken := by
  rcases hs.items_eq with ⟨rfl, rfl⟩ | ⟨item, stop, rfl, hends, rfl⟩
  · have htokens := List.forall_mem_map.1 hitems
    rw [streamFaults, List.mem_append] at h
    rcases h with h | h
    · exact quotesUnbroken_of_mem_recoveredFrom (List.forall_mem_nil _) htokens h
    · exact quotesUnbroken_of_mem_finalFaults htokens h
  · rw [List.forall_mem_append, List.forall_mem_map, List.forall_mem_cons] at hitems
    obtain ⟨htokens, hitem, -⟩ := hitems
    rw [streamFaults, List.mem_append, List.mem_singleton] at h
    rcases h with h | rfl
    · exact quotesUnbroken_of_mem_recoveredFrom (List.forall_mem_nil _) htokens h
    · exact hends.quotesUnbroken htokens hitem

/-! ## Findings -/

/-- Neither the message of a finding nor the name of its rule breaks a line. -/
structure Diagnostic.Unbroken (d : Diagnostic) : Prop where
  message : TagLint.Unbroken d.message
  rule : ∀ rule ∈ d.rule, TagLint.Unbroken rule

theorem unbroken_of_mem_occurrencesFrom {before tokens : List Token} {o : Occurrence}
    (hbefore : ∀ t ∈ before, TokenItem.Unbroken (.ok t)) (htokens : ∀ t ∈ tokens, TokenItem.Unbroken (.ok t))
    (h : o ∈ occurrencesFrom before tokens) : Unbroken o.name ∧ ∀ name ∈ o.around, Unbroken name := by
  induction tokens generalizing before with
  | nil => cases h
  | cons t tokens ih =>
    obtain ⟨ht, htokens⟩ := List.forall_mem_cons.1 htokens
    rw [occurrencesFrom, List.mem_append, Option.mem_toList] at h
    rcases h with h | h
    · obtain ⟨name, hname, rfl⟩ := Option.map_eq_some_iff.1 h
      refine ⟨ht.begins? hname, List.forall_mem_map.2 fun e he => ?_⟩
      exact unbroken_of_mem_openTags hbefore e (List.mem_reverse.1 he)
    · exact ih (List.forall_mem_append.2 ⟨hbefore, List.forall_mem_singleton.2 ht⟩) htokens h

theorem Occurrence.unbroken_violation {o : Occurrence} (hname : Unbroken o.name)
    (haround : ∀ name ∈ o.around, Unbroken name) : o.violation.Unbroken where
  message := by
    have helement (name : String) (h : Unbroken name) : Unbroken s!"<{name}>" := by
      rw [unbroken_append, unbroken_append]
      exact ⟨⟨unbroken_literal rfl, h⟩, unbroken_literal rfl⟩
    unfold violation
    simp only [unbroken_append, unbroken_toString, hname, and_true]
    refine ⟨⟨unbroken_literal rfl, unbroken_literal rfl⟩, unbroken_intercalate (unbroken_literal rfl) ?_⟩
    exact List.forall_mem_map.2 fun name hmem => helement name (haround name hmem)
  rule := by
    intro rule hrule
    obtain rfl := Option.some.inj hrule
    rw [unbroken_append]
    exact ⟨unbroken_literal rfl, hname⟩

/-- All findings of a validation. -/
def Validation.diagnostics (v : Validation) : List Diagnostic :=
  v.wellFormedness ++ v.ruleResults.flatMap RuleResult.diagnostics

/-- Whatever a text holds, no finding in it breaks a line. -/
theorem Diagnostic.unbroken_of_validate {source : String} {elements : List String} {rules : Registry} {d : Diagnostic}
    (hrules : (Registry.rootOnly elements).2 = .ok rules) (h : d ∈ (validate source rules).diagnostics) :
    d.Unbroken := by
  have hitems : ∀ item ∈ tokenize source, item.Unbroken := fun _ => unbroken_of_mem_tokenize
  rw [Validation.diagnostics, List.mem_append] at h
  unfold validate at h
  cases hc : checkWellFormed (tokenize source) with
  | error ds =>
    obtain ⟨tokens, stop?, rest, hs, -, rfl⟩ := streamFaults_of_checkWellFormed hc
    rw [hc] at h
    rcases h with h | h
    · obtain ⟨fault, hfault, rfl⟩ := List.mem_map.1 h
      refine ⟨(quotesUnbroken_of_mem_streamFaults hs hitems hfault).message, fun rule hrule => ?_⟩
      cases hrule
    · cases h
  | ok root =>
    obtain ⟨tokens, htokens, -, hwritten⟩ := linearises_of_checkWellFormed hc
    rw [hc] at h
    rcases h with h | h
    · cases h
    · obtain ⟨result, hresult, hd⟩ := List.mem_flatMap.1 h
      obtain ⟨rule, hrule, rfl⟩ := List.mem_map.1 hresult
      rw [Registry.rules_of_rootOnly hrules] at hrule
      obtain ⟨name, -, rfl⟩ := List.mem_map.1 hrule
      rw [RootOnly.check_eq hwritten name] at hd
      obtain ⟨o, ho, rfl⟩ := List.mem_map.1 hd
      have hmem : o ∈ occurrences tokens := List.mem_of_mem_tail (List.mem_of_mem_filter ho)
      rw [htokens] at hitems
      obtain ⟨hname, haround⟩ :=
        unbroken_of_mem_occurrencesFrom (List.forall_mem_nil _) (List.forall_mem_map.1 hitems) hmem
      exact Occurrence.unbroken_violation hname haround

end TagLint
