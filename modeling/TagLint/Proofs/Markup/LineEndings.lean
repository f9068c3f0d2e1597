import TagLint.Proofs.Markup.Faults
import TagLint.Proofs.Markup.Tiling
import TagLint.Proofs.Text.LineEndings
/-!
# Reading does not depend on the style of line ends

Each reader does on a text in another style what it does on the text: it reads the same construct, written in
that style, or fails at the same place for the same reason (`Lexeme.read_inStyle`).
-/

namespace TagLint

/-- The same fault in a text of the style. -/
def Fault.inStyle (style : LineEnding) (fault : Fault) : Fault := ⟨TagLint.inStyle style fault.rest, fault.cause⟩

/-- What reading comes to on a text of the style, `part` being what becomes of what was read. -/
def Reading.inStyle {α : Type} (style : LineEnding) (part : α → α) : Reading α → Reading α
  | .ok (a, rest) => .ok (part a, TagLint.inStyle style rest)
  | .error fault => .error (fault.inStyle style)

/-- An attribute with its space and value in the style. -/
def WrittenAttribute.inStyle (style : LineEnding) (a : WrittenAttribute) : WrittenAttribute where
  gap := TagLint.inStyle style a.gap
  name := a.name
  beforeEquals := TagLint.inStyle style a.beforeEquals
  afterEquals := TagLint.inStyle style a.afterEquals
  quote := a.quote
  value := TagLint.inStyle style a.value

/-- A lexeme with all but its names in the style. -/
def Lexeme.inStyle (style : LineEnding) : Lexeme → Lexeme
  | .data text => .data (TagLint.inStyle style text)
  | .comment body => .comment (TagLint.inStyle style body)
  | .cdata body => .cdata (TagLint.inStyle style body)
  | .instruction body => .instruction (TagLint.inStyle style body)
  | .declaration body => .declaration (TagLint.inStyle style body)
  | .closeTag name gap => .closeTag name (TagLint.inStyle style gap)
  | .tag name attributes gap selfClosing =>
    .tag name (attributes.map (WrittenAttribute.inStyle style)) (TagLint.inStyle style gap) selfClosing

variable {style : LineEnding}

/-! ## References -/

/-- A run of characters none of which is a line end. -/
theorem takeWhile_inStyle_of_false {p : Char → Bool} (hr : p '\r' = false) (hn : p '\n' = false) (text : List Char) :
    (inStyle style text).takeWhile p = text.takeWhile p := by
  rw [takeWhile_inStyle (hr.trans hn.symm), inStyle_of_notMem fun hm => ?_]
  have h := List.all_eq_true.1 List.all_takeWhile _ hm
  rw [hn] at h
  cases h

theorem takeWhile_isNameChar_inStyle (text : List Char) :
    (inStyle style text).takeWhile isNameChar = text.takeWhile isNameChar :=
  takeWhile_inStyle_of_false (not_isNameChar_of_isSpace (by decide)) (not_isNameChar_of_isSpace (by decide)) text

theorem dropWhile_isNameChar_inStyle (text : List Char) :
    (inStyle style text).dropWhile isNameChar = inStyle style (text.dropWhile isNameChar) :=
  dropWhile_inStyle ((not_isNameChar_of_isSpace (by decide)).trans (not_isNameChar_of_isSpace (by decide)).symm) text

theorem takeWhile_isSpace_inStyle (text : List Char) :
    (inStyle style text).takeWhile isSpace = inStyle style (text.takeWhile isSpace) :=
  takeWhile_inStyle (by decide) text

theorem dropWhile_isSpace_inStyle (text : List Char) :
    (inStyle style text).dropWhile isSpace = inStyle style (text.dropWhile isSpace) :=
  dropWhile_inStyle (by decide) text

namespace Reference

theorem read_inStyle (text : List Char) :
    read (inStyle style text) = (read text).map fun parts => (parts.1, inStyle style parts.2) := by
  have hr : isBodyChar '\r' = false := by rw [isBodyChar, not_isNameChar_of_isSpace (by decide)]; rfl
  have hn : isBodyChar '\n' = false := by rw [isBodyChar, not_isNameChar_of_isSpace (by decide)]; rfl
  unfold read
  rw [takeWhile_inStyle_of_false hr hn, dropWhile_inStyle (hr.trans hn.symm)]
  cases text.takeWhile isBodyChar with
  | nil => rfl
  | cons c body =>
    cases text.dropWhile isBodyChar with
    | nil => rfl
    | cons d rest =>
      by_cases hd : d = '\n'
      · rw [hd, inStyle_feed]
        cases style <;> rfl
      · rw [inStyle_cons hd]
        by_cases hsemi : d = ';'
        · subst hsemi
          simp only
          cases cause? (c :: body) <;> rfl
        · simp [hsemi]
          rfl

theorem firstFault_inStyle (text : List Char) :
    firstFault (inStyle style text) = (firstFault text).map fun fault => (inStyle style fault.1, fault.2) := by
  fun_induction firstFault text with
  | case1 => rw [inStyle_nil, firstFault]; rfl
  | case2 text body rest hr ih =>
    have hread : read (inStyle style text) = .ok (body, inStyle style rest) := by rw [read_inStyle, hr]; rfl
    rw [inStyle_cons (by decide), firstFault, if_pos rfl]
    split
    next body' rest' h =>
      obtain ⟨-, rfl⟩ : body = body' ∧ inStyle style rest = rest' := by simpa using hread.symm.trans h
      exact ih
    next cause h => rw [hread] at h; cases h
  | case3 text cause hr =>
    have hread : read (inStyle style text) = .error cause := by rw [read_inStyle, hr]; rfl
    rw [inStyle_cons (by decide), firstFault, if_pos rfl]
    split
    next body rest h => rw [hread] at h; cases h
    next cause' h =>
      obtain rfl : cause = cause' := by simpa using hread.symm.trans h
      simp [inStyle_cons]
  | case4 c text hc ih =>
    by_cases hfeed : c = '\n'
    · have hend : '&' ∉ style.text := fun hm => by rcases LineEnding.mem_text hm with h | h <;> cases h
      rw [hfeed, inStyle_feed, (ReferencesRead.of_notMem hend).firstFault_append, ih]
    · rw [inStyle_cons hfeed, firstFault, if_neg hc, ih]

end Reference

theorem readRun_inStyle {stops : Char → Bool} (hr : stops '\r' = false) (hn : stops '\n' = false) (text : List Char) :
    readRun stops (inStyle style text) = (readRun stops text).inStyle style (inStyle style) := by
  have hstops : (!stops '\r') = !stops '\n' := by rw [hr, hn]
  simp only [readRun]
  rw [takeWhile_inStyle hstops, dropWhile_inStyle hstops, Reference.firstFault_inStyle]
  cases Reference.firstFault (text.takeWhile fun c => !stops c) with
  | none => rfl
  | some fault => simp [Reading.inStyle, Fault.inStyle]

/-! ## Attributes -/

/-- What stands behind spaces is no space, and so begins with no line end. -/
theorem ne_feed_of_dropWhile_isSpace {text rest : List Char} {c : Char} (h : text.dropWhile isSpace = c :: rest) :
    c ≠ '\n' := by
  have hhead := head?_dropWhile_isSpace_ne text
  rw [h] at hhead
  simpa using hhead

theorem readValue_inStyle {tag name : String} {quote : Char} (hq : quote ≠ '\n') (text : List Char) :
    readValue tag name quote (inStyle style text) = (readValue tag name quote text).inStyle style (inStyle style) := by
  unfold readValue
  by_cases hquote : quote = '"' ∨ quote = '\''
  · rw [if_pos hquote, if_pos hquote, readRun_inStyle (by rcases hquote with rfl | rfl <;> rfl)
      (by rcases hquote with rfl | rfl <;> rfl)]
    cases hrun : readRun (fun c => c == quote || c == '<') text with
    | error fault => rfl
    | ok parts =>
      obtain ⟨value, _ | ⟨c, rest⟩⟩ := parts
      · simp [Reading.inStyle, Fault.inStyle, inStyle_cons hq]
      · -- What stops a value is the quote or an angle bracket.
        have hc : c ≠ '\n' := by
          have hstop := (readRun_eq_ok_iff.1 hrun).2.2.1 c rfl
          rintro rfl
          rcases hquote with rfl | rfl <;> cases hstop
        simp only [Reading.inStyle, inStyle_cons hc]
        by_cases hend : c = quote
        · rw [if_pos hend, if_pos hend]
        · rw [if_neg hend, if_neg hend]
          simp [Fault.inStyle, inStyle_cons hc]
  · rw [if_neg hquote, if_neg hquote]
    simp [Reading.inStyle, Fault.inStyle, inStyle_cons hq]

theorem readAttribute_inStyle {tag : String} (gap text : List Char) :
    readAttribute tag (inStyle style gap) (inStyle style text) =
      (readAttribute tag gap text).inStyle style (WrittenAttribute.inStyle style) := by
  simp only [readAttribute, takeWhile_isNameChar_inStyle, dropWhile_isNameChar_inStyle, dropWhile_isSpace_inStyle]
  cases hEquals : (text.dropWhile isNameChar).dropWhile isSpace with
  | nil => rfl
  | cons c afterEquals =>
    rw [inStyle_cons (ne_feed_of_dropWhile_isSpace hEquals)]
    by_cases hc : c = '='
    · subst hc
      simp only [dropWhile_isSpace_inStyle]
      cases hQuote : afterEquals.dropWhile isSpace with
      | nil => rfl
      | cons quote inside =>
        have hq := ne_feed_of_dropWhile_isSpace hQuote
        simp only [inStyle_cons hq, readValue_inStyle hq]
        cases readValue tag (.ofList (text.takeWhile isNameChar)) quote inside with
        | error fault => rfl
        | ok parts => simp [Reading.inStyle, WrittenAttribute.inStyle, takeWhile_isSpace_inStyle]
    · simp [hc, Reading.inStyle, Fault.inStyle]

/-! ## Tags -/

theorem checkName_inStyle {opener : Opener} (text : List Char) :
    checkName opener (inStyle style text) = (checkName opener text).mapError (Fault.inStyle style) := by
  cases text with
  | nil => rfl
  | cons c text =>
    by_cases hc : c = '\n'
    · rw [hc, inStyle_feed]
      cases style <;> rfl
    · simp only [inStyle_cons hc, checkName]
      split
      · rfl
      · rw [← inStyle_cons hc]
        split <;> rfl

theorem readCloseTag_inStyle (source text : List Char) :
    readCloseTag (inStyle style source) (inStyle style text) =
      (readCloseTag source text).inStyle style (Lexeme.inStyle style) := by
  unfold readCloseTag
  rw [checkName_inStyle]
  cases checkName .close text with
  | error fault => rfl
  | ok =>
    have hname : (Except.ok () : Except Fault Unit).mapError (Fault.inStyle style) = .ok () := rfl
    simp only [hname, takeWhile_isNameChar_inStyle, dropWhile_isNameChar_inStyle, dropWhile_isSpace_inStyle]
    cases hEnd : (text.dropWhile isNameChar).dropWhile isSpace with
    | nil => rfl
    | cons c rest =>
      have hc := ne_feed_of_dropWhile_isSpace hEnd
      simp only [inStyle_cons hc]
      by_cases hgt : c = '>'
      · rw [if_pos hgt, if_pos hgt]
        simp [Reading.inStyle, Lexeme.inStyle, takeWhile_isSpace_inStyle]
      · rw [if_neg hgt, if_neg hgt]
        simp [Reading.inStyle, Fault.inStyle, inStyle_cons hc]

theorem readTagRest_inStyle (source name : List Char) (read : List WrittenAttribute) (text : List Char) :
    readTagRest (inStyle style source) name (read.map (WrittenAttribute.inStyle style)) (inStyle style text) =
      (readTagRest source name read text).inStyle style (Lexeme.inStyle style) := by
  have hleft {text rest : List Char} {c : Char} (h : text.dropWhile isSpace = c :: rest) :
      (inStyle style text).dropWhile isSpace = c :: inStyle style rest ∧ c ≠ '\n' := by
    have hc := ne_feed_of_dropWhile_isSpace h
    exact ⟨by rw [dropWhile_isSpace_inStyle, h, inStyle_cons hc], hc⟩
  fun_induction readTagRest source name read text with
  | case1 read text tag hText =>
    rw [readTagRest]
    split
    next => rfl
    next c rest h =>
      rw [dropWhile_isSpace_inStyle, hText] at h
      cases h
  | case2 read text gap rest hText =>
    rw [readTagRest_of_dropWhile (hleft hText).1, if_pos rfl]
    simp [Reading.inStyle, Lexeme.inStyle, takeWhile_isSpace_inStyle, gap]
  | case3 read text gap behind left hLeft hText =>
    rw [readTagRest_of_dropWhile (hleft hText).1, if_neg (by decide), if_pos rfl]
    simp [after?_inStyle, hLeft, Reading.inStyle, Lexeme.inStyle, takeWhile_isSpace_inStyle, gap]
  | case4 read text tag rest hNone hText =>
    rw [readTagRest_of_dropWhile (hleft hText).1, if_neg (by decide), if_pos rfl]
    simp [after?_inStyle, hNone, Reading.inStyle, Fault.inStyle, tag]
  | case5 read text tag gap c rest hText hgt hslash hstart hgap =>
    obtain ⟨hd, hc⟩ := hleft hText
    rw [readTagRest_of_dropWhile hd, if_neg hgt, if_neg hslash, if_pos hstart, takeWhile_isSpace_inStyle,
      if_pos (by rwa [isEmpty_inStyle])]
    simp [Reading.inStyle, Fault.inStyle, inStyle_cons hc, tag]
  | case6 read text tag gap c rest hText hgt hslash hstart hgap fault hr =>
    obtain ⟨hd, hc⟩ := hleft hText
    rw [readTagRest_of_isNameStart hd hstart (by rwa [takeWhile_isSpace_inStyle, isEmpty_inStyle]),
      takeWhile_isSpace_inStyle, ← inStyle_cons hc, readAttribute_inStyle, hr]
    rfl
  | case7 read text tag gap c rest hText hgt hslash hstart hgap a left hr hany =>
    obtain ⟨hd, hc⟩ := hleft hText
    rw [readTagRest_of_isNameStart hd hstart (by rwa [takeWhile_isSpace_inStyle, isEmpty_inStyle]),
      takeWhile_isSpace_inStyle, ← inStyle_cons hc, readAttribute_inStyle, hr]
    simp only [Reading.inStyle]
    rw [if_pos (by simpa [WrittenAttribute.inStyle] using hany)]
    rfl
  | case8 read text tag gap c rest hText hgt hslash hstart hgap a left hr hany ih =>
    obtain ⟨hd, hc⟩ := hleft hText
    rw [readTagRest_of_isNameStart hd hstart (by rwa [takeWhile_isSpace_inStyle, isEmpty_inStyle]),
      takeWhile_isSpace_inStyle, ← inStyle_cons hc, readAttribute_inStyle, hr]
    simp only [Reading.inStyle]
    rw [if_neg (by simpa [WrittenAttribute.inStyle] using hany)]
    exact ih
  | case9 read text tag c rest hText hgt hslash hstart =>
    obtain ⟨hd, hc⟩ := hleft hText
    rw [readTagRest_of_dropWhile hd, if_neg hgt, if_neg hslash, if_neg hstart]
    simp [Reading.inStyle, Fault.inStyle, inStyle_cons hc, tag]

theorem readTag_inStyle (source text : List Char) :
    readTag (inStyle style source) (inStyle style text) =
      (readTag source text).inStyle style (Lexeme.inStyle style) := by
  unfold readTag
  rw [checkName_inStyle]
  cases checkName .start text with
  | error fault => rfl
  | ok =>
    have hname : (Except.ok () : Except Fault Unit).mapError (Fault.inStyle style) = .ok () := rfl
    simp only [hname, takeWhile_isNameChar_inStyle, dropWhile_isNameChar_inStyle]
    exact readTagRest_inStyle source _ [] _

/-! ## Comments, sections, instructions and declarations -/

theorem readComment_inStyle (source text : List Char) :
    readComment (inStyle style source) (inStyle style text) =
      (readComment source text).inStyle style (Lexeme.inStyle style) := by
  unfold readComment
  rw [splitAt?_inStyle (by decide) (by decide)]
  cases splitAt? ['-', '-'] text with
  | none => rfl
  | some parts =>
    obtain ⟨body, _ | ⟨c, rest⟩⟩ := parts
    · rfl
    · by_cases hc : c = '\n'
      · rw [hc]
        cases style <;> rfl
      · simp only [Option.map_some, inStyle_cons hc]
        by_cases hgt : c = '>'
        · subst hgt
          rfl
        · simp [hgt, Reading.inStyle, Fault.inStyle, inStyle_cons hc, inStyle_cons (c := '-')]

theorem readCData_inStyle (source text : List Char) :
    readCData (inStyle style source) (inStyle style text) =
      (readCData source text).inStyle style (Lexeme.inStyle style) := by
  unfold readCData
  rw [Lexeme.cdataEnd, splitAt?_inStyle (by decide) (by decide)]
  cases splitAt? [']', ']', '>'] text <;> rfl

theorem readInstruction_inStyle (source text : List Char) :
    readInstruction (inStyle style source) (inStyle style text) =
      (readInstruction source text).inStyle style (Lexeme.inStyle style) := by
  unfold readInstruction
  rw [splitAt?_inStyle (by decide) (by decide)]
  cases splitAt? ['?', '>'] text <;> rfl

/-- A literal of a declaration stands in quotes. -/
def DeclarationState.Quoted (state : DeclarationState) : Prop := ∀ c ∈ state.quote, c = '"' ∨ c = '\''

theorem DeclarationState.Quoted.step {state : DeclarationState} (h : state.Quoted) (c : Char) :
    (state.step c).Quoted := by
  unfold DeclarationState.step
  split
  next quote hq => split <;> simp_all [Quoted]
  next hnone =>
    split
    next hc => simpa [Quoted] using hc
    next => split <;> (try split) <;> simp_all [Quoted]

/-- In no state a line end means anything to a declaration. -/
theorem splitDeclaration?_lineEnd {state : DeclarationState} (h : state.Quoted) (read text : List Char) :
    splitDeclaration? state read (style.text ++ text) =
      splitDeclaration? state (style.text.reverse ++ read) text := by
  obtain ⟨quote, depth⟩ := state
  have hend : ∀ c ∈ style.text, c ≠ '>' ∧ DeclarationState.step ⟨quote, depth⟩ c = ⟨quote, depth⟩ := by
    intro c hc
    cases quote with
    | none => rcases LineEnding.mem_text hc with rfl | rfl <;> simp [DeclarationState.step]
    | some quote =>
      rcases h quote rfl with rfl | rfl <;> rcases LineEnding.mem_text hc with rfl | rfl <;>
        simp [DeclarationState.step]
  generalize style.text = front at hend
  induction front generalizing read with
  | nil => rfl
  | cons c front ih =>
    obtain ⟨hgt, hstep⟩ := hend c List.mem_cons_self
    rw [List.cons_append, splitDeclaration?, if_neg (fun hc => hgt hc.1), hstep,
      ih _ fun d hd => hend d (List.mem_cons_of_mem _ hd)]
    simp

theorem splitDeclaration?_inStyle {state : DeclarationState} (h : state.Quoted) (read text : List Char) :
    splitDeclaration? state (inStyle style read.reverse).reverse (inStyle style text) =
      (splitDeclaration? state read text).map fun parts => (inStyle style parts.1, inStyle style parts.2) := by
  induction text generalizing state read with
  | nil => rfl
  | cons c text ih =>
    by_cases hc : c = '\n'
    · subst hc
      have hread := ih h ('\n' :: read)
      have hpassed : splitDeclaration? state read ('\n' :: text) = splitDeclaration? state ('\n' :: read) text :=
        @splitDeclaration?_lineEnd .lineFeed state h read text
      rw [List.reverse_cons, inStyle_append, inStyle_feed, inStyle_nil, List.append_nil, List.reverse_append] at hread
      rw [inStyle_feed, splitDeclaration?_lineEnd h, hread, hpassed]
    · have hread := ih (h.step c) (c :: read)
      rw [List.reverse_cons, inStyle_append, inStyle_cons hc, inStyle_nil, List.reverse_append] at hread
      rw [inStyle_cons hc, splitDeclaration?, splitDeclaration?]
      split
      next => simp
      next => exact hread

theorem readDeclaration_inStyle (source text : List Char) :
    readDeclaration (inStyle style source) (inStyle style text) =
      (readDeclaration source text).inStyle style (Lexeme.inStyle style) := by
  cases text with
  | nil => rfl
  | cons c text =>
    by_cases hc : c = '\n'
    · rw [hc, inStyle_feed]
      cases style <;> rfl
    · have hquoted : DeclarationState.start.Quoted := fun c hc => by cases hc
      have hsplit := @splitDeclaration?_inStyle style .start hquoted [] (c :: text)
      rw [List.reverse_nil, inStyle_nil, List.reverse_nil, inStyle_cons hc] at hsplit
      simp only [inStyle_cons hc, readDeclaration, hsplit]
      split
      next => cases splitDeclaration? .start [] (c :: text) <;> rfl
      next => simp [Reading.inStyle, Fault.inStyle, inStyle_cons hc]

/-! ## Lexemes -/

/-- In another style the same lexeme is read off a text, or the same fault is met. -/
theorem Lexeme.read_inStyle (source : List Char) :
    read (TagLint.inStyle style source) = (read source).inStyle style (Lexeme.inStyle style) := by
  have hafter (mark : List Char) (hr : '\r' ∉ mark) (hn : '\n' ∉ mark) :
      after? mark (TagLint.inStyle style source) = (after? mark source).map (TagLint.inStyle style) :=
    after?_inStyle hr hn source
  unfold read
  rw [hafter commentStart (by decide) (by decide)]
  cases after? commentStart source with
  | some text => exact readComment_inStyle source text
  | none =>
  rw [hafter cdataStart (by decide) (by decide)]
  cases after? cdataStart source with
  | some text => exact readCData_inStyle source text
  | none =>
  rw [hafter ['<', '!'] (by decide) (by decide)]
  cases after? ['<', '!'] source with
  | some text => exact readDeclaration_inStyle source text
  | none =>
  rw [hafter ['<', '?'] (by decide) (by decide)]
  cases after? ['<', '?'] source with
  | some text => exact readInstruction_inStyle source text
  | none =>
  rw [hafter ['<', '/'] (by decide) (by decide)]
  cases after? ['<', '/'] source with
  | some text => exact readCloseTag_inStyle source text
  | none =>
  rw [hafter ['<'] (by decide) (by decide)]
  cases after? ['<'] source with
  | some text => exact readTag_inStyle source text
  | none =>
  simp only [Option.map_none]
  rw [readRun_inStyle rfl rfl]
  cases readRun (fun c => c == '<') source <;> rfl

end TagLint
