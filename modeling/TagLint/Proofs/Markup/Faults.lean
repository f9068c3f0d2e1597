import TagLint.Proofs.Markup.Tags
/-!
# Where a fault stands

A reader that fails names a place in the construct it was given, and never the middle of a line break
(`Lexeme.fault_of_read`): what follows the place begins with no line feed, or else the character before the
place belongs to the construct and is no carriage return.
-/

namespace TagLint

/-- What is left at a fault is the end of a text, and begins in no line break. -/
def Fault.EndOf (fault : Fault) (text : List Char) : Prop :=
  ∃ passed, text = passed ++ fault.rest ∧ (fault.rest.head? = some '\n' → ∃ c ∈ passed.getLast?, c ≠ '\r')

namespace Fault.EndOf

/-- More text before does not matter. -/
theorem append {fault : Fault} {text : List Char} (h : fault.EndOf text) (front : List Char) :
    fault.EndOf (front ++ text) := by
  obtain ⟨passed, ht, hhead⟩ := h
  refine ⟨front ++ passed, by rw [ht, List.append_assoc], fun hn => ?_⟩
  obtain ⟨c, hc, hr⟩ := hhead hn
  exact ⟨c, by simp [Option.mem_def.1 hc], hr⟩

/-- A fault before what begins with no line feed. -/
theorem of_head {fault : Fault} {text : List Char} (passed : List Char) (h : text = passed ++ fault.rest)
    (hh : fault.rest.head? ≠ some '\n') : fault.EndOf text :=
  ⟨passed, h, fun hn => absurd hn hh⟩

/-- A fault right behind a character that is no carriage return. -/
theorem of_cons {cause : SyntaxCause} {c : Char} (text : List Char) (hc : c ≠ '\r') :
    Fault.EndOf ⟨text, cause⟩ (c :: text) :=
  ⟨[c], rfl, fun _ => ⟨c, rfl, hc⟩⟩

end Fault.EndOf

theorem head?_dropWhile_isSpace_ne (text : List Char) : (text.dropWhile isSpace).head? ≠ some '\n' := by
  intro h
  have hspace := List.head?_dropWhile_not isSpace text
  rw [h] at hspace
  exact absurd hspace (by decide)

/-! ## Runs and values -/

/-- The ampersand that begins no reference. -/
theorem append_of_firstFault {text rest : List Char} {cause : ReferenceCause}
    (h : Reference.firstFault text = some (rest, cause)) : ∃ passed more, text = passed ++ rest ∧ rest = '&' :: more := by
  fun_induction Reference.firstFault text with
  | case1 => cases h
  | case2 text body left hr ih =>
    obtain ⟨passed, more, rfl, hrest⟩ := ih h
    refine ⟨'&' :: body ++ ';' :: passed, more, ?_, hrest⟩
    rw [Reference.read_eq hr]
    simp
  | case3 text cause' hr =>
    obtain ⟨rfl, -⟩ : '&' :: text = rest ∧ cause' = cause := by simpa using h
    exact ⟨[], text, rfl, rfl⟩
  | case4 c text _ ih =>
    obtain ⟨passed, more, rfl, hrest⟩ := ih h
    exact ⟨c :: passed, more, rfl, hrest⟩

theorem fault_of_readRun {stops : Char → Bool} {text : List Char} {fault : Fault}
    (h : readRun stops text = .error fault) : fault.EndOf text := by
  simp only [readRun] at h
  split at h
  next rest cause hf =>
    obtain rfl := Except.error.inj h
    obtain ⟨passed, more, hrun, rfl⟩ := append_of_firstFault hf
    have htext := List.takeWhile_append_dropWhile (p := fun c => !stops c) (l := text)
    rw [hrun, List.append_assoc] at htext
    exact .of_head passed htext.symm (by simp)
  next => cases h

/-- The fault of a value stands at the quote that opens it or behind it. -/
theorem fault_of_readValue {tag name : String} {quote : Char} {text : List Char} {fault : Fault}
    (hq : quote ≠ '\n') (h : readValue tag name quote text = .error fault) : fault.EndOf (quote :: text) := by
  unfold readValue at h
  split at h
  next =>
    split at h
    next fault' hr =>
      obtain rfl := Except.error.inj h
      exact (fault_of_readRun hr).append [quote]
    next =>
      obtain rfl := Except.error.inj h
      exact .of_head [] rfl (by simpa using hq)
    next value c rest hr =>
      split at h
      next => cases h
      next hc =>
        obtain rfl := Except.error.inj h
        obtain ⟨htext, -, hstop, -⟩ := readRun_eq_ok_iff.1 hr
        have hangle : c = '<' := by simpa [hc] using hstop c rfl
        exact .of_head (quote :: value) (by rw [htext]; rfl) (by simp [hangle])
  next =>
    obtain rfl := Except.error.inj h
    exact .of_head [] rfl (by simpa using hq)

/-! ## Tags -/

theorem fault_of_readAttribute {tag : String} {gap text : List Char} {fault : Fault} (hh : text.head? ≠ some '\n')
    (h : readAttribute tag gap text = .error fault) : fault.EndOf text := by
  have hname := List.takeWhile_append_dropWhile (p := isNameChar) (l := text)
  have hbefore := List.takeWhile_append_dropWhile (p := isSpace) (l := text.dropWhile isNameChar)
  simp only [readAttribute] at h
  split at h
  next afterEquals hEquals =>
    have hafter := List.takeWhile_append_dropWhile (p := isSpace) (l := afterEquals)
    split at h
    next =>
      obtain rfl := Except.error.inj h
      exact .of_head [] rfl hh
    next quote inside hQuote =>
      split at h
      next fault' hr =>
        obtain rfl := Except.error.inj h
        have hq : quote ≠ '\n' := by
          have := head?_dropWhile_isSpace_ne afterEquals
          rw [hQuote] at this
          simpa using this
        rw [← hname, ← hbefore, hEquals, ← hafter, hQuote]
        exact ((((fault_of_readValue hq hr).append _).append ['=']).append _).append _
      next => cases h
  next =>
    obtain rfl := Except.error.inj h
    exact .of_head [] rfl hh

/-- The fault of a name stands where the name should begin, behind the opener. -/
theorem rest_of_checkName {opener : Opener} {text : List Char} {fault : Fault}
    (h : checkName opener text = .error fault) : fault.rest = text := by
  unfold checkName at h
  split at h
  next => obtain rfl := Except.error.inj h; rfl
  next =>
    split at h
    next => cases h
    next => split at h <;> (obtain rfl := Except.error.inj h; rfl)

theorem fault_of_readCloseTag {text : List Char} {fault : Fault}
    (h : readCloseTag ('<' :: '/' :: text) text = .error fault) : fault.EndOf ('<' :: '/' :: text) := by
  have hname := List.takeWhile_append_dropWhile (p := isNameChar) (l := text)
  have hgap := List.takeWhile_append_dropWhile (p := isSpace) (l := text.dropWhile isNameChar)
  unfold readCloseTag at h
  split at h
  next fault' hf =>
    obtain rfl := Except.error.inj h
    obtain ⟨rest, cause⟩ := fault'
    obtain rfl : rest = text := rest_of_checkName hf
    exact (Fault.EndOf.of_cons rest (by decide)).append ['<']
  next =>
    simp only at h
    split at h
    next =>
      obtain rfl := Except.error.inj h
      exact .of_head [] rfl (by simp)
    next c rest hr =>
      split at h
      next => cases h
      next =>
        obtain rfl := Except.error.inj h
        have hhead := head?_dropWhile_isSpace_ne (text.dropWhile isNameChar)
        rw [hr] at hhead hgap
        rw [← hname, ← hgap]
        exact .of_head ('<' :: '/' :: (text.takeWhile isNameChar ++ (text.dropWhile isNameChar).takeWhile isSpace))
          (by simp) hhead

/-- The fault of a tag stands where the tag begins or in what was left of it. -/
theorem fault_of_readTagRest {source name text : List Char} {read : List WrittenAttribute} {fault : Fault}
    (hh : source.head? ≠ some '\n') :
    ∀ front, source = front ++ text → readTagRest source name read text = .error fault → fault.EndOf source := by
  -- What is left behind the space is the end of the tag, and begins with no line feed.
  have hleft {front text rest : List Char} {c : Char} (hs : source = front ++ text)
      (hText : text.dropWhile isSpace = c :: rest) :
      source = front ++ text.takeWhile isSpace ++ c :: rest ∧ (c :: rest).head? ≠ some '\n' := by
    rw [← hText, List.append_assoc, List.takeWhile_append_dropWhile]
    exact ⟨hs, head?_dropWhile_isSpace_ne text⟩
  fun_induction readTagRest source name read text with
  | case1 =>
    intro front hs h
    obtain rfl := Except.error.inj h
    exact .of_head [] rfl hh
  | case2 | case3 =>
    intro front hs h
    cases h
  | case4 read text tag rest _ hText =>
    intro front hs h
    obtain rfl := Except.error.inj h
    rw [(hleft hs hText).1]
    exact (Fault.EndOf.of_cons rest (by decide)).append _
  | case5 read text tag gap c rest hText
  | case7 read text tag gap c rest hText
  | case9 read text tag c rest hText =>
    intro front hs h
    obtain rfl := Except.error.inj h
    exact .of_head _ (hleft hs hText).1 (hleft hs hText).2
  | case6 read text tag gap c rest hText _ _ _ _ fault' hr =>
    intro front hs h
    obtain rfl := Except.error.inj h
    rw [(hleft hs hText).1]
    exact (fault_of_readAttribute (hleft hs hText).2 hr).append _
  | case8 read text tag gap c rest hText _ _ _ _ a left hr _ ih =>
    intro front hs h
    have hfront := (hleft hs hText).1
    rw [List.append_assoc, readAttribute_eq hr, ← List.append_assoc] at hfront
    exact ih _ hfront h

theorem fault_of_readTag {text : List Char} {fault : Fault} (h : readTag ('<' :: text) text = .error fault) :
    fault.EndOf ('<' :: text) := by
  have hname := List.takeWhile_append_dropWhile (p := isNameChar) (l := text)
  unfold readTag at h
  split at h
  next fault' hf =>
    obtain rfl := Except.error.inj h
    obtain ⟨rest, cause⟩ := fault'
    obtain rfl : rest = text := rest_of_checkName hf
    exact .of_cons rest (by decide)
  next =>
    have hs : '<' :: text = '<' :: text.takeWhile isNameChar ++ text.dropWhile isNameChar := by
      rw [List.cons_append, hname]
    exact fault_of_readTagRest (by simp) _ hs h

/-! ## Lexemes -/

theorem fault_of_readComment {text : List Char} {fault : Fault}
    (h : readComment (Lexeme.commentStart ++ text) text = .error fault) : fault.EndOf (Lexeme.commentStart ++ text) := by
  unfold readComment at h
  split at h
  next =>
    obtain rfl := Except.error.inj h
    exact .of_head [] rfl (by simp [Lexeme.commentStart])
  next => cases h
  next body rest _ hr =>
    obtain rfl := Except.error.inj h
    exact .of_head (Lexeme.commentStart ++ body) (by rw [splitAt?_eq hr]; simp) (by simp)

theorem fault_of_readDeclaration {text : List Char} {fault : Fault}
    (h : readDeclaration ('<' :: '!' :: text) text = .error fault) : fault.EndOf ('<' :: '!' :: text) := by
  have hbehind : Fault.EndOf ⟨text, .malformedDeclaration⟩ ('<' :: '!' :: text) :=
    (Fault.EndOf.of_cons text (by decide)).append ['<']
  unfold readDeclaration at h
  split at h
  next =>
    obtain rfl := Except.error.inj h
    exact hbehind
  next c text =>
    split at h
    next =>
      split at h
      next =>
        obtain rfl := Except.error.inj h
        exact .of_head [] rfl (by simp)
      next => cases h
    next =>
      obtain rfl := Except.error.inj h
      exact hbehind

/-- Where no lexeme can be read, the fault stands in the text and in no line break of it. -/
theorem Lexeme.fault_of_read {source : List Char} {fault : Fault} (h : Lexeme.read source = .error fault) :
    fault.EndOf source := by
  unfold Lexeme.read at h
  split at h
  next text ht =>
    obtain rfl := after?_eq_some_iff.1 ht
    exact fault_of_readComment h
  next =>
  split at h
  next text ht =>
    obtain rfl := after?_eq_some_iff.1 ht
    unfold readCData at h
    split at h
    next =>
      obtain rfl := Except.error.inj h
      exact .of_head [] rfl (by simp [cdataStart])
    next => cases h
  next =>
  split at h
  next text ht =>
    obtain rfl := after?_eq_some_iff.1 ht
    exact fault_of_readDeclaration h
  next =>
  split at h
  next text ht =>
    obtain rfl := after?_eq_some_iff.1 ht
    unfold readInstruction at h
    split at h
    next =>
      obtain rfl := Except.error.inj h
      exact .of_head [] rfl (by simp)
    next => cases h
  next =>
  split at h
  next text ht =>
    obtain rfl := after?_eq_some_iff.1 ht
    exact fault_of_readCloseTag h
  next =>
  split at h
  next text ht =>
    obtain rfl := after?_eq_some_iff.1 ht
    exact fault_of_readTag h
  next =>
  split at h
  next fault' hr =>
    obtain rfl := Except.error.inj h
    exact fault_of_readRun hr
  next => cases h

end TagLint
