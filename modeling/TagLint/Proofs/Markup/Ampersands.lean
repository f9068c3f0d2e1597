import TagLint.Proofs.Markup.Positions
/-!
# Where references are accepted

To every ampersand in character data or in the value of an attribute the tokenizer comes. Wherever it does, it goes on
behind the semicolon of a legal reference, and ends with an error at the ampersand if there is none
(`tokenize_references`).
-/

namespace TagLint

/-! ## Inside a run -/

open Lexeme in
/-- The tokenizer has come to where `before` ends and `after` begins inside a run with references: in character data,
or in the value of an attribute, of which `a` is what has been read. All it passed is legal. -/
inductive InRun (src : String) : (before after : List Char) → Prop
  | data {lexemes : List Lexeme} {run after : List Char} :
    Tiles src.toList lexemes (run ++ after) → '<' ∉ run → ReferencesRead run →
      InRun src (lexemes.flatMap text ++ run) after
  | value {lexemes : List Lexeme} {name after : List Char} {attributes : List WrittenAttribute} {a : WrittenAttribute} :
    Tiles src.toList lexemes
        ('<' :: name ++ attributes.flatMap WrittenAttribute.text ++ a.opening ++ a.value ++ after) →
      IsName name → (∀ b ∈ attributes, b.Legal) → (attributes.map WrittenAttribute.name).Nodup → a.Legal →
      InRun src (lexemes.flatMap text ++
        ('<' :: name ++ attributes.flatMap WrittenAttribute.text ++ a.opening ++ a.value)) after

/-- The characters of a reference stop no run. -/
theorem ne_of_isBodyChar {quote c : Char} (hq : quote = '"' ∨ quote = '\'')
    (hc : Reference.isBodyChar c ∨ c = '&' ∨ c = ';') : c ≠ quote ∧ c ≠ '<' := by
  have hmark {d : Char} (hd : Reference.isBodyChar d = false) (hampersand : d ≠ '&') (hsemi : d ≠ ';') : c ≠ d := by
    rintro rfl
    rcases hc with hc | hc | hc
    · rw [hd] at hc
      cases hc
    · exact hampersand hc
    · exact hsemi hc
  have hangle : c ≠ '<' := hmark rfl (by decide) (by decide)
  rcases hq with rfl | rfl
  · exact ⟨hmark rfl (by decide) (by decide), hangle⟩
  · exact ⟨hmark rfl (by decide) (by decide), hangle⟩

theorem Reference.Legal.chars {body : List Char} (h : Legal body) :
    ∀ c ∈ '&' :: (body ++ [';']), isBodyChar c ∨ c = '&' ∨ c = ';' := by
  intro c hc
  rcases List.mem_cons.1 hc with rfl | hc
  · exact .inr (.inl rfl)
  · rcases List.mem_append.1 hc with hc | hc
    · exact .inl (h.all_isBodyChar c hc)
    · exact .inr (.inr (List.mem_singleton.1 hc))

theorem Reference.Legal.referencesRead {body : List Char} (h : Legal body) :
    ReferencesRead ('&' :: (body ++ [';'])) := by
  apply referencesRead_ampersand.2
  refine ⟨body, [], read_eq_ok_iff.2 ⟨h, rfl⟩, ?_⟩
  intro before after hnil
  simp at hnil

namespace InRun

variable {src : String} {before after body rest : List Char}

theorem text_eq (h : InRun src before after) : src.toList = before ++ after := by
  cases h with
  | data ht => rw [ht.text_eq, List.append_assoc]
  | value ht =>
    rw [ht.text_eq]
    simp only [List.append_assoc]

/-- To each ampersand in the character data of a text the tokenizer comes. -/
theorem of_data {lexemes : List Lexeme} {run text rest : List Char}
    (ht : Lexeme.Tiles src.toList lexemes (run ++ '&' :: text ++ rest)) (hl : (Lexeme.data (run ++ '&' :: text)).Legal) :
    InRun src (lexemes.flatMap Lexeme.text ++ run) ('&' :: text ++ rest) := by
  cases hl with
  | data _ hangle href =>
    apply InRun.data
    · rwa [List.append_assoc] at ht
    · exact fun hm => hangle (List.mem_append_left _ hm)
    · exact href.before_ampersand

/-- And so to each in the values of its attributes. -/
theorem of_value {lexemes : List Lexeme} {name gap run text rest : List Char} {selfClosing : Bool}
    {xs ys : List WrittenAttribute} {a : WrittenAttribute}
    (ht : Lexeme.Tiles src.toList lexemes ((Lexeme.tag name (xs ++ a :: ys) gap selfClosing).text ++ rest))
    (hl : (Lexeme.tag name (xs ++ a :: ys) gap selfClosing).Legal) (hvalue : a.value = run ++ '&' :: text) :
    ∃ after, InRun src
      (lexemes.flatMap Lexeme.text ++ ('<' :: name ++ xs.flatMap WrittenAttribute.text ++ a.opening ++ run))
      ('&' :: text ++ a.quote :: after) := by
  cases hl with
  | tag hn hall hd hg =>
    have ha : a.Legal := hall a (by simp)
    have hlegal : { a with value := run }.Legal := by
      refine { ha with value := ?_, references := ?_ }
      · intro c hc
        apply ha.value
        rw [hvalue]
        exact List.mem_append_left _ hc
      · have href := ha.references
        rw [hvalue] at href
        exact href.before_ampersand
    have htext : (Lexeme.tag name (xs ++ a :: ys) gap selfClosing).text ++ rest =
        '<' :: name ++ xs.flatMap WrittenAttribute.text ++ a.opening ++ run ++
          ('&' :: text ++ a.quote :: (ys.flatMap WrittenAttribute.text ++ gap ++ tagEnd selfClosing ++ rest)) := by
      simp [Lexeme.text, tagEnd, WrittenAttribute.text, WrittenAttribute.assignment, WrittenAttribute.opening, hvalue]
    rw [htext] at ht
    rw [List.map_append] at hd
    refine ⟨ys.flatMap WrittenAttribute.text ++ gap ++ tagEnd selfClosing ++ rest, ?_⟩
    apply InRun.value (a := { a with value := run })
    · exact ht
    · exact hn
    · exact fun b hb => hall b (List.mem_append_left _ hb)
    · exact (List.nodup_append.1 hd).1
    · exact hlegal

/-- Behind a reference the run goes on. -/
theorem reference (h : InRun src before ('&' :: after)) (hr : Reference.read after = .ok (body, rest)) :
    InRun src (before ++ '&' :: (body ++ [';'])) rest := by
  obtain ⟨hl, hbody⟩ := Reference.read_eq_ok_iff.1 hr
  have hafter : '&' :: after = '&' :: (body ++ [';']) ++ rest := by
    rw [hbody]
    simp
  cases h with
  | @data lexemes run _ ht hangle href =>
    rw [List.append_assoc]
    apply InRun.data
    · rwa [List.append_assoc, ← hafter]
    · intro hm
      rcases List.mem_append.1 hm with hm | hm
      · exact hangle hm
      · exact (ne_of_isBodyChar (.inl rfl) (hl.chars _ hm)).2 rfl
    · exact href.append hl.referencesRead
  | @value lexemes name _ attributes a ht hn hb hd ha =>
    have hlegal : { a with value := a.value ++ '&' :: (body ++ [';']) }.Legal := by
      refine { ha with value := ?_, references := ha.references.append hl.referencesRead }
      intro c hc
      rcases List.mem_append.1 hc with hc | hc
      · exact ha.value c hc
      · exact ne_of_isBodyChar ha.quote (hl.chars c hc)
    have hvalue := @InRun.value src lexemes name rest attributes _
      (by rw [hafter] at ht; simpa [WrittenAttribute.opening] using ht) hn hb hd hlegal
    simpa [WrittenAttribute.opening] using hvalue

/-- Where no reference stands, the lexeme that has begun cannot be read. -/
theorem read_eq_error {cause : ReferenceCause} (h : InRun src before ('&' :: after))
    (hr : Reference.read after = .error cause) :
    ∃ lexemes passed, Lexeme.Tiles src.toList lexemes (passed ++ '&' :: after) ∧
      before = lexemes.flatMap Lexeme.text ++ passed ∧
      Lexeme.read (passed ++ '&' :: after) = .error ⟨'&' :: after, .badReference cause⟩ := by
  cases h with
  | @data lexemes run _ ht hangle href =>
    refine ⟨lexemes, run, ht, rfl, ?_⟩
    have hstops : ∀ c, Reference.isBodyChar c ∨ c = '&' ∨ c = ';' → (c == '<') = false :=
      fun c hc => beq_eq_false_iff_ne.2 (ne_of_isBodyChar (.inl rfl) hc).2
    have hrun : ∀ c ∈ run, (c == '<') = false := fun c hc => beq_eq_false_iff_ne.2 fun e => hangle (e ▸ hc)
    have hread := readRun_of_read_eq_error hstops hrun href hr
    obtain ⟨c, more, hcons, hc⟩ : ∃ c more, run ++ '&' :: after = c :: more ∧ c ≠ '<' := by
      cases run with
      | nil => exact ⟨'&', after, rfl, by decide⟩
      | cons c run => exact ⟨c, run ++ '&' :: after, rfl, fun e => hangle (e ▸ List.mem_cons_self)⟩
    rw [hcons] at hread ⊢
    rw [Lexeme.read_data more hc, hread]
  | @value lexemes name _ attributes a ht hn hb hd ha =>
    refine ⟨lexemes, _, ht, rfl, ?_⟩
    have hstops : ∀ c, Reference.isBodyChar c ∨ c = '&' ∨ c = ';' → (c == a.quote || c == '<') = false := by
      intro c hc
      obtain ⟨hquote, hangle⟩ := ne_of_isBodyChar ha.quote hc
      rw [beq_eq_false_iff_ne.2 hquote, beq_eq_false_iff_ne.2 hangle]
      rfl
    have hrun : ∀ c ∈ a.value, (c == a.quote || c == '<') = false := by
      intro c hc
      obtain ⟨hquote, hangle⟩ := ha.value c hc
      rw [beq_eq_false_iff_ne.2 hquote, beq_eq_false_iff_ne.2 hangle]
      rfl
    have hvalue : readValue (.ofList name) (.ofList a.name) a.quote (a.value ++ '&' :: after) =
        .error ⟨'&' :: after, .badReference cause⟩ := by
      unfold readValue
      rw [if_pos ha.quote, readRun_of_read_eq_error hstops hrun ha.references hr]
    have htext : '<' :: name ++ attributes.flatMap WrittenAttribute.text ++ a.opening ++ a.value ++ '&' :: after =
        '<' :: (name ++ (attributes.flatMap WrittenAttribute.text ++ (a.opening ++ (a.value ++ '&' :: after)))) := by
      simp
    rw [htext, Lexeme.read_name hn, readTag_of_name _ hn (head_attributes hb (ha.head_opening _)),
      readTagRest_attributes _ name [] hb hd, readTagRest_opening _ name _ ha, hvalue]

end InRun

/-- The tokenizer comes to each ampersand in character data and to each in the values of a tag. Wherever it comes to one,
a legal reference is read, exactly up to its semicolon, and the run goes on behind it. If none stands there, the tokens
end with an error at the ampersand. -/
theorem tokenize_references (src : String) :
    (∀ lexemes run text rest, Lexeme.Tiles src.toList lexemes (run ++ '&' :: text ++ rest) →
      (Lexeme.data (run ++ '&' :: text)).Legal →
        InRun src (lexemes.flatMap Lexeme.text ++ run) ('&' :: text ++ rest)) ∧
    (∀ lexemes name gap run text rest selfClosing xs a ys,
      Lexeme.Tiles src.toList lexemes ((Lexeme.tag name (xs ++ a :: ys) gap selfClosing).text ++ rest) →
      (Lexeme.tag name (xs ++ a :: ys) gap selfClosing).Legal → a.value = run ++ '&' :: text →
        ∃ after, InRun src
          (lexemes.flatMap Lexeme.text ++ ('<' :: name ++ xs.flatMap WrittenAttribute.text ++ a.opening ++ run))
          ('&' :: text ++ a.quote :: after)) ∧
    ∀ before after, InRun src before ('&' :: after) →
      (∀ body rest, Reference.read after = .ok (body, rest) ↔ Reference.Legal body ∧ after = body ++ ';' :: rest) ∧
        ((∃ body rest, Reference.Legal body ∧ after = body ++ ';' :: rest ∧
            InRun src (before ++ '&' :: (body ++ [';'])) rest) ∨
          (∀ body rest, Reference.Legal body → after ≠ body ++ ';' :: rest) ∧
            ∃ (tokens : List Token) (cause : ReferenceCause) (position : Position), Reference.read after = .error cause ∧
              tokenize src = tokens.map .ok ++ [.error ⟨position, (SyntaxCause.badReference cause).message⟩] ∧
              position.Splits src before ('&' :: after)) := by
  refine ⟨fun _ _ _ _ => InRun.of_data, fun _ _ _ _ _ _ _ _ _ _ => InRun.of_value, fun before after h => ?_⟩
  refine ⟨fun body rest => Reference.read_eq_ok_iff, ?_⟩
  cases hr : Reference.read after with
  | ok parts =>
    obtain ⟨body, rest⟩ := parts
    obtain ⟨hl, hafter⟩ := Reference.read_eq_ok_iff.1 hr
    exact .inl ⟨body, rest, hl, hafter, h.reference hr⟩
  | error cause =>
    apply Or.inr
    constructor
    · intro body rest hl hafter
      rw [Reference.read_eq_ok_iff.2 ⟨hl, hafter⟩] at hr
      cases hr
    · obtain ⟨lexemes, passed, ht, hbefore, hf⟩ := h.read_eq_error hr
      have herror := @Fault.error_eq ⟨'&' :: after, .badReference cause⟩ passed (.behind (lexemes.flatMap Lexeme.text))
      rw [Cursor.readAll_behind, ← hbefore] at herror
      refine ⟨Lexeme.tokens .start lexemes, cause, .behind before, rfl, ?_, ?_⟩
      · rw [tokenize, Lexeme.tokenizeFrom_of_fault ht hf, Cursor.readAll_start, herror]
        rfl
      · apply Position.splits_behind h.text_eq
        rintro ⟨-, hhead⟩
        cases hhead

/-- In text and in a value. A number with zeros in front is read, and one that does not fit into a word is none of the
letter it would wrap to. -/
theorem tokenize_references_overflow :
    InRun "&lt;" [] "&lt;".toList ∧
      (∃ after, InRun "<a b='&#x00041;'>" "<a b='".toList ("&#x00041;'".toList ++ after)) ∧
      InRun "<a b='&#x00041;&#4294967361;'>" "<a b='&#x00041;".toList ('&' :: "#4294967361;'>".toList) ∧
      ∃ (tokens : List Token) (position : Position), tokenize "<a b='&#x00041;&#4294967361;'>" =
          tokens.map .ok ++ [.error ⟨position, "invalid character reference '&#4294967361;'"⟩] ∧
        position.Splits "<a b='&#x00041;&#4294967361;'>" "<a b='&#x00041;".toList ('&' :: "#4294967361;'>".toList) := by
  have hwrites : Digits.Writes 16 ['4', '1'] 65 :=
    ⟨by simp, [4, 1], .cons (by decide) (.cons (by decide) .nil), rfl⟩
  have hlegal : Reference.Legal "#x00041".toList := .hexadecimal (hwrites.zeros (by decide) 3) (by decide)
  have hname (c : Char) (hc : isNameStart c) : IsName [c] := ⟨c, [], rfl, hc, by simp⟩
  have ha : WrittenAttribute.Legal ⟨[' '], ['b'], [], [], '\'', "&#x00041;".toList⟩ := {
      gap_ne_nil := by simp
      gap := by
        intro c hc
        rw [List.mem_singleton.1 hc]
        rfl
      name := hname 'b' rfl
      beforeEquals := by simp [IsSpaces]
      afterEquals := by simp [IsSpaces]
      quote := .inr rfl
      value := fun c hc => ne_of_isBodyChar (.inr rfl) (hlegal.chars c hc)
      references := hlegal.referencesRead }
  have h : InRun "<a b='&#x00041;&#4294967361;'>" "<a b='&#x00041;".toList ('&' :: "#4294967361;'>".toList) :=
    @InRun.value _ [] ['a'] _ [] _ .nil (hname 'a' rfl) (by simp) (by simp) ha
  have hread : Reference.read "#4294967361;'>".toList = .error (.notACharacter "#4294967361") := rfl
  have htext : InRun "&lt;" [] "&lt;".toList := by
    have hlt : Reference.Legal "lt".toList := .entity (by simp)
    exact (tokenize_references "&lt;").1 [] [] "lt;".toList [] .nil
      (.data (List.cons_ne_nil _ _) (by decide) hlt.referencesRead)
  have hvalue : ∃ after, InRun "<a b='&#x00041;'>" "<a b='".toList ("&#x00041;'".toList ++ after) :=
    (tokenize_references "<a b='&#x00041;'>").2.1 [] ['a'] [] [] "#x00041;".toList [] false [] _ [] .nil
      (.tag (hname 'a' rfl) (List.forall_mem_singleton.2 ha) (by simp) (List.forall_mem_nil _)) rfl
  refine ⟨htext, hvalue, h, ?_⟩
  rcases ((tokenize_references _).2.2 _ _ h).2 with ⟨body, rest, hl, hafter, -⟩ | ⟨-, tokens, cause, position, hr, ht, hp⟩
  · rw [Reference.read_eq_ok_iff.2 ⟨hl, hafter⟩] at hread
    cases hread
  · obtain rfl := Except.error.inj (hread.symm.trans hr)
    exact ⟨tokens, position, ht, hp⟩

end TagLint
