import TagLint.Proofs.Markup.Names
import TagLint.Proofs.Markup.Positions
import TagLint.Proofs.Text.Lines
/-!
# What messages quote

A message about the syntax of a text quotes parts of it (`SyntaxCause.quoted`), and none of them breaks a line: each
is a run of characters that names and references are made of, or one character behind the space before it. So neither
the errors of a text nor the names in its tags break lines (`unbroken_of_mem_tokenize`).
-/

namespace TagLint

/-! ## Messages -/

/-- The parts of a text that a message about a reference quotes. -/
def ReferenceCause.quoted : ReferenceCause → List String
  | .unterminated => []
  | .notACharacter body | .undefinedEntity body => [body]

/-- The parts of a text that a message about its syntax quotes. -/
def SyntaxCause.quoted : SyntaxCause → List String
  | .hyphensInComment | .unterminatedComment | .unterminatedSection | .unterminatedInstruction
  | .malformedDeclaration | .unterminatedDeclaration | .spaceBeforeName _ | .missingName _ => []
  | .invalidNameStart _ found => [toString found]
  | .unexpectedInCloseTag tag found | .unexpectedInTag tag found => [tag, toString found]
  | .unterminatedCloseTag tag | .unterminatedTag tag | .slashInTag tag | .missingSpace tag => [tag]
  | .duplicateAttribute tag name | .missingValue tag name | .unquotedValue tag name
  | .unterminatedValue tag name => [tag, name]
  | .angleInValue name => [name]
  | .badReference cause => cause.quoted

theorem ReferenceCause.unbroken_message {cause : ReferenceCause} (h : ∀ s ∈ cause.quoted, Unbroken s) :
    Unbroken cause.message := by
  cases cause with
  | unterminated => exact unbroken_literal rfl
  | notACharacter body | undefinedEntity body =>
    rw [quoted, List.forall_mem_singleton] at h
    unfold message
    simp only [unbroken_append, unbroken_toString, h, and_true]
    exact ⟨unbroken_literal rfl, unbroken_literal rfl⟩

theorem Opener.unbroken_text (o : Opener) : Unbroken o.text := by
  cases o with
  | start => exact unbroken_literal rfl
  | close => exact unbroken_literal rfl

/-- A message breaks no line if nothing that it quotes does. -/
theorem SyntaxCause.unbroken_message {cause : SyntaxCause} (h : ∀ s ∈ cause.quoted, Unbroken s) :
    Unbroken cause.message := by
  cases cause with
  | hyphensInComment | unterminatedComment | unterminatedSection | unterminatedInstruction
  | malformedDeclaration | unterminatedDeclaration => exact unbroken_literal rfl
  | badReference cause => exact ReferenceCause.unbroken_message h
  | _ =>
    simp only [quoted, List.forall_mem_cons, List.not_mem_nil, false_implies, implies_true, and_true] at h
    unfold message
    simp only [unbroken_append, unbroken_toString, Opener.unbroken_text, h, and_true]
    and_intros <;> exact unbroken_literal rfl

/-! ## Characters in one line -/

theorem unbroken_takeWhile {p : Char → Bool} (hn : p '\n' = false) (hr : p '\r' = false) (text : List Char) :
    Unbroken (.ofList (text.takeWhile p)) :=
  unbroken_ofList hn hr (List.all_eq_true.1 List.all_takeWhile)

theorem IsName.unbroken {name : List Char} (h : IsName name) : Unbroken (.ofList name) :=
  unbroken_ofList (by decide) (by decide) h.all_isNameChar

theorem unbroken_char {c : Char} (h : isSpace c = false) : Unbroken (toString c) := by
  have hc : c ≠ '\n' ∧ c ≠ '\r' := by
    constructor
    · rintro rfl
      exact absurd h (by decide)
    · rintro rfl
      exact absurd h (by decide)
  have htext : (toString c).toList = [c] := String.toList_singleton c
  exact ⟨by simp [htext, hc.1.symm], by simp [htext, hc.2.symm]⟩

/-- Behind space the next character is none. -/
theorem unbroken_of_dropWhile_isSpace {text rest : List Char} {c : Char} (h : text.dropWhile isSpace = c :: rest) :
    Unbroken (toString c) := by
  have hspace := List.head?_dropWhile_not isSpace text
  rw [h] at hspace
  exact unbroken_char (by simpa using hspace)

/-! ## Faults -/

/-- What a fault says quotes nothing that breaks a line. -/
def Fault.QuotesUnbroken (fault : Fault) : Prop := ∀ s ∈ fault.cause.quoted, Unbroken s

namespace Reference

theorem quoted_of_cause? {body : List Char} {cause : ReferenceCause} (h : cause? body = some cause) :
    cause.quoted = [.ofList body] := by
  unfold cause? at h
  split at h
  next =>
    split at h
    next => cases h
    next => obtain rfl := Option.some.inj h; rfl
  next =>
    split at h
    next => cases h
    next => obtain rfl := Option.some.inj h; rfl
  next =>
    split at h
    next => cases h
    next => obtain rfl := Option.some.inj h; rfl

theorem unbroken_of_read {text : List Char} {cause : ReferenceCause} (h : read text = .error cause) :
    ∀ s ∈ cause.quoted, Unbroken s := by
  have hbody := unbroken_takeWhile (p := isBodyChar) (by decide) (by decide) text
  unfold read at h
  split at h
  next c body rest hrun _ =>
    split at h
    next cause' hcause =>
      obtain rfl := Except.error.inj h
      rw [quoted_of_cause? hcause, ← hrun]
      exact List.forall_mem_singleton.2 hbody
    next => cases h
  next =>
    obtain rfl := Except.error.inj h
    exact List.forall_mem_nil _

theorem unbroken_of_firstFault {text rest : List Char} {cause : ReferenceCause}
    (h : firstFault text = some (rest, cause)) : ∀ s ∈ cause.quoted, Unbroken s := by
  fun_induction firstFault text with
  | case1 => cases h
  | case2 text body left hr ih => exact ih h
  | case3 text cause' hr =>
    obtain ⟨-, rfl⟩ : '&' :: text = rest ∧ cause' = cause := by simpa using h
    exact unbroken_of_read hr
  | case4 c text hc ih => exact ih h

end Reference

theorem quotesUnbroken_of_readRun {stops : Char → Bool} {text : List Char} {fault : Fault}
    (h : readRun stops text = .error fault) : fault.QuotesUnbroken := by
  simp only [readRun] at h
  split at h
  next rest cause hf =>
    obtain rfl := Except.error.inj h
    exact Reference.unbroken_of_firstFault hf
  next => cases h

section

variable {tag name : String} {fault : Fault}

theorem quotesUnbroken_of_readValue {quote : Char} {text : List Char} (htag : Unbroken tag) (hname : Unbroken name)
    (h : readValue tag name quote text = .error fault) : fault.QuotesUnbroken := by
  have hboth : ∀ s ∈ [tag, name], Unbroken s := List.forall_mem_cons.2 ⟨htag, List.forall_mem_singleton.2 hname⟩
  unfold readValue at h
  split at h
  next =>
    split at h
    next fault' hr =>
      obtain rfl := Except.error.inj h
      exact quotesUnbroken_of_readRun hr
    next =>
      obtain rfl := Except.error.inj h
      exact hboth
    next value c rest hr =>
      split at h
      next => cases h
      next =>
        obtain rfl := Except.error.inj h
        exact List.forall_mem_singleton.2 hname
  next =>
    obtain rfl := Except.error.inj h
    exact hboth

theorem quotesUnbroken_of_readAttribute {gap text : List Char} (htag : Unbroken tag)
    (h : readAttribute tag gap text = .error fault) : fault.QuotesUnbroken := by
  have hname := unbroken_takeWhile (p := isNameChar) (by decide) (by decide) text
  simp only [readAttribute] at h
  split at h
  next =>
    split at h
    next =>
      obtain rfl := Except.error.inj h
      exact List.forall_mem_singleton.2 htag
    next =>
      split at h
      next fault' hr =>
        obtain rfl := Except.error.inj h
        exact quotesUnbroken_of_readValue htag hname hr
      next => cases h
  next =>
    obtain rfl := Except.error.inj h
    exact List.forall_mem_cons.2 ⟨htag, List.forall_mem_singleton.2 hname⟩

theorem quotesUnbroken_of_checkName {opener : Opener} {text : List Char} (h : checkName opener text = .error fault) :
    fault.QuotesUnbroken := by
  unfold checkName at h
  split at h
  next =>
    obtain rfl := Except.error.inj h
    exact List.forall_mem_nil _
  next c rest =>
    split at h
    next => cases h
    next =>
      split at h
      next =>
        obtain rfl := Except.error.inj h
        exact List.forall_mem_nil _
      next hspace =>
        obtain rfl := Except.error.inj h
        exact List.forall_mem_singleton.2 (unbroken_char (by simpa using hspace))

theorem quotesUnbroken_of_readCloseTag {source text : List Char} (h : readCloseTag source text = .error fault) :
    fault.QuotesUnbroken := by
  have hname := unbroken_takeWhile (p := isNameChar) (by decide) (by decide) text
  unfold readCloseTag at h
  split at h
  next fault' hf =>
    obtain rfl := Except.error.inj h
    exact quotesUnbroken_of_checkName hf
  next =>
    simp only at h
    split at h
    next =>
      obtain rfl := Except.error.inj h
      exact List.forall_mem_singleton.2 hname
    next c rest hrest =>
      split at h
      next => cases h
      next =>
        obtain rfl := Except.error.inj h
        exact List.forall_mem_cons.2 ⟨hname, List.forall_mem_singleton.2 (unbroken_of_dropWhile_isSpace hrest)⟩

end

theorem quotesUnbroken_of_readTagRest {source name text : List Char} {read : List WrittenAttribute} {fault : Fault}
    (hname : Unbroken (.ofList name)) (h : readTagRest source name read text = .error fault) :
    fault.QuotesUnbroken := by
  have hone : ∀ s ∈ [String.ofList name], Unbroken s := List.forall_mem_singleton.2 hname
  fun_induction readTagRest source name read text with
  | case2 | case3 => cases h
  | case1 | case4 | case5 =>
    obtain rfl := Except.error.inj h
    exact hone
  | case6 read text tag gap c rest hText _ _ _ _ fault' hr =>
    obtain rfl := Except.error.inj h
    exact quotesUnbroken_of_readAttribute hname hr
  | case7 read text tag gap c rest hText _ _ hc hgap a left hr =>
    obtain rfl := Except.error.inj h
    have hne : gap ≠ [] := fun hnil => hgap (List.isEmpty_iff.2 hnil)
    have ha : a.Legal := legal_of_readAttribute hne (isSpaces_takeWhile text) hc hr
    exact List.forall_mem_cons.2 ⟨hname, List.forall_mem_singleton.2 ha.name.unbroken⟩
  | case8 read text tag gap c rest hText _ _ _ _ a left hr _ ih => exact ih h
  | case9 read text tag c rest hText =>
    obtain rfl := Except.error.inj h
    exact List.forall_mem_cons.2 ⟨hname, List.forall_mem_singleton.2 (unbroken_of_dropWhile_isSpace hText)⟩

theorem quotesUnbroken_of_readTag {source text : List Char} {fault : Fault} (h : readTag source text = .error fault) :
    fault.QuotesUnbroken := by
  unfold readTag at h
  split at h
  next fault' hf =>
    obtain rfl := Except.error.inj h
    exact quotesUnbroken_of_checkName hf
  next => exact quotesUnbroken_of_readTagRest (unbroken_takeWhile (by decide) (by decide) text) h

/-! Messages about the other kinds of markup quote nothing. -/

theorem quotesUnbroken_of_readComment {source text : List Char} {fault : Fault}
    (h : readComment source text = .error fault) : fault.QuotesUnbroken := by
  unfold readComment at h
  split at h
  next =>
    obtain rfl := Except.error.inj h
    exact List.forall_mem_nil _
  next => cases h
  next =>
    obtain rfl := Except.error.inj h
    exact List.forall_mem_nil _

theorem quotesUnbroken_of_readCData {source text : List Char} {fault : Fault}
    (h : readCData source text = .error fault) : fault.QuotesUnbroken := by
  unfold readCData at h
  split at h
  next =>
    obtain rfl := Except.error.inj h
    exact List.forall_mem_nil _
  next => cases h

theorem quotesUnbroken_of_readInstruction {source text : List Char} {fault : Fault}
    (h : readInstruction source text = .error fault) : fault.QuotesUnbroken := by
  unfold readInstruction at h
  split at h
  next =>
    obtain rfl := Except.error.inj h
    exact List.forall_mem_nil _
  next => cases h

theorem quotesUnbroken_of_readDeclaration {source text : List Char} {fault : Fault}
    (h : readDeclaration source text = .error fault) : fault.QuotesUnbroken := by
  unfold readDeclaration at h
  split at h
  next =>
    obtain rfl := Except.error.inj h
    exact List.forall_mem_nil _
  next =>
    split at h
    next =>
      split at h
      next =>
        obtain rfl := Except.error.inj h
        exact List.forall_mem_nil _
      next => cases h
    next =>
      obtain rfl := Except.error.inj h
      exact List.forall_mem_nil _

/-- What is said about a text that cannot be read quotes nothing of it that breaks a line. -/
theorem Lexeme.quotesUnbroken_of_read {source : List Char} {fault : Fault} (h : Lexeme.read source = .error fault) :
    fault.QuotesUnbroken := by
  unfold Lexeme.read at h
  split at h
  next => exact quotesUnbroken_of_readComment h
  next =>
  split at h
  next => exact quotesUnbroken_of_readCData h
  next =>
  split at h
  next => exact quotesUnbroken_of_readDeclaration h
  next =>
  split at h
  next => exact quotesUnbroken_of_readInstruction h
  next =>
  split at h
  next => exact quotesUnbroken_of_readCloseTag h
  next =>
  split at h
  next => exact quotesUnbroken_of_readTag h
  next =>
  split at h
  next fault' hr =>
    obtain rfl := Except.error.inj h
    exact quotesUnbroken_of_readRun hr
  next => cases h

/-! ## Items -/

/-- Neither what an error says nor the name in a tag breaks a line. -/
def TokenItem.Unbroken : TokenItem → Prop
  | .ok t => ∀ name ∈ t.tagName?, TagLint.Unbroken name
  | .error e => TagLint.Unbroken e.message

/-- Whatever a text holds, no item of it breaks a line in a report. -/
theorem unbroken_of_mem_tokenize {source : String} {item : TokenItem} (h : item ∈ tokenize source) :
    item.Unbroken := by
  obtain ⟨lexemes, rest, ht, ⟨t, hmem, rfl⟩ | ⟨fault, hf, rfl⟩⟩ := Lexeme.exists_tiles_of_mem_tokenize h
  · intro name hn
    have hname := (ht.named_tokens _ t hmem name hn).unbroken
    rwa [String.ofList_toList] at hname
  · exact SyntaxCause.unbroken_message (Lexeme.quotesUnbroken_of_read hf)

end TagLint
