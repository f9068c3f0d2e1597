import TagLint.Markup.Tokenize
import TagLint.Proofs.Markup.Marked
import TagLint.Proofs.Markup.Tags
import TagLint.Proofs.Text.Places
/-!
# The tokens of a text are the lexemes at its front

Reading takes a lexeme off a text exactly if the grammar has one there (`Lexeme.read_eq_ok_iff`). So each
text has one longest tiling by lexemes, and its tokens are those of the tiles, in order and placed where
they stand. An error follows exactly if something is left (`tokenize_tiles`).
-/

namespace TagLint

namespace Lexeme

/-! ## One lexeme -/

/-- A lexeme that was read is legal, and ends where it must. -/
theorem legal_of_read {source rest : List Char} {l : Lexeme} (hne : source ≠ []) (h : read source = .ok (l, rest)) :
    l.Legal ∧ l.EndsBefore rest := by
  have hmarkup {l : Lexeme} (hl : l.Legal) (hd : l.isData = false) : l.Legal ∧ l.EndsBefore rest :=
    ⟨hl, fun h => by rw [hd] at h; cases h⟩
  unfold read at h
  split at h
  next text _ =>
    obtain ⟨body, rfl, -, hf⟩ := readComment_eq_ok_iff.1 h
    obtain ⟨hin, hlast⟩ := endsAtFirst_hyphens_iff.1 hf
    exact hmarkup (.comment hin hlast) rfl
  next =>
  split at h
  next text _ =>
    obtain ⟨body, rfl, -, hf⟩ := readCData_eq_ok_iff.1 h
    exact hmarkup (.cdata hf) rfl
  next =>
  split at h
  next text _ =>
    obtain ⟨c, body, rfl, -, hc, hbody⟩ := readDeclaration_eq_ok_iff.1 h
    exact hmarkup (.declaration hc hbody) rfl
  next =>
  split at h
  next text _ =>
    obtain ⟨body, rfl, -, hf⟩ := readInstruction_eq_ok_iff.1 h
    exact hmarkup (.instruction hf) rfl
  next =>
  split at h
  next text _ =>
    obtain ⟨name, gap, rfl, -, hn, hg⟩ := readCloseTag_eq_ok_iff.1 h
    exact hmarkup (.closeTag hn hg) rfl
  next =>
  split at h
  next text _ => exact hmarkup (legal_of_readTag h) (isData_of_readTag h)
  next hmark =>
  split at h
  next => cases h
  next run r hr =>
    obtain ⟨rfl, rfl⟩ : Lexeme.data run = l ∧ r = rest := by simpa using h
    obtain ⟨hs, hrun, hrest, href⟩ := readRun_eq_ok_iff.1 hr
    refine ⟨.data ?_ (fun hm => absurd (hrun _ hm) (by decide)) href, fun _ c hc => by simpa using hrest c hc⟩
    obtain ⟨c, source, rfl⟩ := List.exists_cons_of_ne_nil hne
    have hc : c ≠ '<' := fun e => hmark source (by simp [after?, e])
    exact ne_nil_of_readRun hr (by simpa using hc)

theorem read_markup {c : Char} (text : List Char) (hc : c ∉ ['!', '?', '/']) :
    read ('<' :: c :: text) = readTag ('<' :: c :: text) (c :: text) := by
  simp only [List.mem_cons, List.not_mem_nil, or_false, not_or] at hc
  obtain ⟨hbang, hquestion, hslash⟩ := hc
  simp [read, commentStart, cdataStart, after?, Ne.symm hbang, Ne.symm hquestion, Ne.symm hslash]

theorem read_declaration {c : Char} (text : List Char) (hc : c.isAlpha) :
    read ('<' :: '!' :: c :: text) = readDeclaration ('<' :: '!' :: c :: text) (c :: text) := by
  have hhyphen : '-' ≠ c := by rintro rfl; exact absurd hc (by decide)
  have hbracket : '[' ≠ c := by rintro rfl; exact absurd hc (by decide)
  simp [read, commentStart, cdataStart, after?, hhyphen, hbracket]

theorem read_name {name : List Char} (hn : IsName name) (rest : List Char) :
    read ('<' :: (name ++ rest)) = readTag ('<' :: (name ++ rest)) (name ++ rest) := by
  obtain ⟨c, more, rfl, hc, -⟩ := hn
  have hmark : c ∉ ['!', '?', '/'] := by
    intro hm
    simp only [List.mem_cons, List.not_mem_nil, or_false] at hm
    rcases hm with rfl | rfl | rfl <;> exact absurd hc (by decide)
  exact read_markup (more ++ rest) hmark

theorem read_data {c : Char} (text : List Char) (hc : c ≠ '<') :
    read (c :: text) =
      match readRun (· == '<') (c :: text) with
      | .error fault => .error fault
      | .ok (run, rest) => .ok (.data run, rest) := by
  cases hrun : readRun (· == '<') (c :: text) with
  | error fault => simp only [read, commentStart, cdataStart, after?, Ne.symm hc, if_false, hrun]
  | ok parts => simp only [read, commentStart, cdataStart, after?, Ne.symm hc, if_false, hrun]

/-- A legal lexeme is read wherever it stands, if it may end there. -/
theorem read_of_legal {l : Lexeme} {rest : List Char} (hl : l.Legal) (hr : l.EndsBefore rest) :
    read (l.text ++ rest) = .ok (l, rest) := by
  cases hl with
  | @data text hne hm href =>
    obtain ⟨c, text, rfl⟩ := List.exists_cons_of_ne_nil hne
    have hc : c ≠ '<' := fun e => hm (e ▸ List.mem_cons_self)
    have hrun : readRun (· == '<') (c :: text ++ rest) = .ok (c :: text, rest) := by
      refine readRun_eq_ok_iff.2 ⟨rfl, fun d hd => ?_, fun d hd => by simpa using hr rfl d hd, href⟩
      exact beq_eq_false_iff_ne.2 fun e => hm (e ▸ hd)
    simp only [Lexeme.text, List.cons_append] at hrun ⊢
    rw [read_data _ hc, hrun]
  | @comment body hin hlast =>
    have hread (source : List Char) : readComment source (body ++ ['-', '-', '>'] ++ rest) = .ok (.comment body, rest) :=
      readComment_eq_ok_iff.2 ⟨body, rfl, rfl, endsAtFirst_hyphens_iff.2 ⟨hin, hlast⟩⟩
    simpa [read, Lexeme.text, commentStart, after?] using hread _
  | @cdata body hf =>
    have hread (source : List Char) : readCData source (body ++ cdataEnd ++ rest) = .ok (.cdata body, rest) :=
      readCData_eq_ok_iff.2 ⟨body, rfl, rfl, hf⟩
    simpa [read, Lexeme.text, commentStart, cdataStart, after?] using hread _
  | @instruction body hf =>
    have hread (source : List Char) : readInstruction source (body ++ ['?', '>'] ++ rest) = .ok (.instruction body, rest) :=
      readInstruction_eq_ok_iff.2 ⟨body, rfl, rfl, hf⟩
    simpa [read, Lexeme.text, commentStart, cdataStart, after?] using hread _
  | @declaration c body hc hbody =>
    have hread (source : List Char) :
        readDeclaration source (c :: body ++ '>' :: rest) = .ok (.declaration (c :: body), rest) :=
      readDeclaration_eq_ok_iff.2 ⟨c, body, rfl, rfl, hc, hbody⟩
    simpa [Lexeme.text, read_declaration _ hc] using hread _
  | @closeTag name gap hn hg =>
    have hread (source : List Char) : readCloseTag source (name ++ gap ++ '>' :: rest) = .ok (.closeTag name gap, rest) :=
      readCloseTag_eq_ok_iff.2 ⟨name, gap, rfl, rfl, hn, hg⟩
    simpa [read, Lexeme.text, commentStart, cdataStart, after?] using hread _
  | @tag name attributes gap selfClosing hn ha hd hg =>
    have hl : (tag name attributes gap selfClosing).Legal := .tag hn ha hd hg
    have hread := readTag_of_legal ((tag name attributes gap selfClosing).text ++ rest) hl rest
    simpa [Lexeme.text, tagEnd, read_name hn] using hread

/-- Reading takes a lexeme off a text exactly if it stands there. -/
theorem read_eq_ok_iff {source rest : List Char} {l : Lexeme} (hne : source ≠ []) :
    read source = .ok (l, rest) ↔ source = l.text ++ rest ∧ l.Legal ∧ l.EndsBefore rest := by
  constructor
  · intro h
    exact ⟨read_eq h, legal_of_read hne h⟩
  · rintro ⟨rfl, hl, hr⟩
    exact read_of_legal hl hr

/-- Reading fails exactly where no lexeme stands. -/
theorem noneAt_iff_read_eq_error {source : List Char} (hne : source ≠ []) :
    NoneAt source ↔ ∃ fault, read source = .error fault := by
  constructor
  · intro h
    cases hr : read source with
    | error fault => exact ⟨fault, rfl⟩
    | ok p =>
      obtain ⟨ht, hl, he⟩ := (read_eq_ok_iff hne).1 hr
      exact absurd ht (h p.1 p.2 hl he)
  · rintro ⟨fault, hf⟩ l rest hl hr rfl
    rw [read_of_legal hl hr] at hf
    cases hf

/-! ## All lexemes -/

theorem Tiles.of_read {source text rest : List Char} {l : Lexeme} {lexemes : List Lexeme} (hne : source ≠ [])
    (h : read source = .ok (l, text)) (ht : Tiles text lexemes rest) : Tiles source (l :: lexemes) rest := by
  obtain ⟨rfl, hl, hr⟩ := (read_eq_ok_iff hne).1 h
  exact .cons hl hr ht

/-- What reading does at the end of a tiling. -/
theorem readFrom_tiles {source rest : List Char} {lexemes : List Lexeme} (h : Tiles source lexemes rest)
    (before : List Lexeme) : readFrom before source = readFrom (lexemes.reverse ++ before) rest := by
  induction h generalizing before with
  | nil => rfl
  | @cons l lexemes text rest hl hr _ ih =>
    have hread := read_of_legal hl hr
    obtain ⟨c, more, hcons⟩ := List.exists_cons_of_ne_nil (text_ne_nil hl)
    rw [hcons, List.cons_append] at hread ⊢
    rw [readFrom]
    split
    next fault hf => rw [hread] at hf; cases hf
    next l' rest' hok =>
      rw [hread] at hok
      obtain ⟨rfl, rfl⟩ : l = l' ∧ text = rest' := by simpa using hok
      rw [ih]
      simp

theorem read_nil : read [] = .ok (.data [], []) := by
  simp [read, commentStart, cdataStart, after?, readRun, Reference.firstFault]

theorem readFrom_of_read_eq_error {rest : List Char} {fault : Fault} (h : read rest = .error fault)
    (before : List Lexeme) : readFrom before rest = (before.reverse, rest, some fault) := by
  cases rest with
  | nil => rw [read_nil] at h; cases h
  | cons c rest =>
    rw [readFrom]
    split
    next fault' hf => rw [h] at hf; cases hf; rfl
    next l rest' hok => rw [h] at hok; cases hok

/-- Each text is tiled as far as it can be. -/
theorem exists_tiles (source : List Char) : ∃ lexemes rest, Tiles source lexemes rest ∧ NoneAt rest := by
  induction hn : source.length using Nat.strongRecOn generalizing source with
  | ind n ih =>
    by_cases hne : source = []
    · exact ⟨[], [], hne ▸ .nil, noneAt_nil⟩
    · cases hr : read source with
      | error fault => exact ⟨[], source, .nil, (noneAt_iff_read_eq_error hne).2 ⟨fault, hr⟩⟩
      | ok p =>
        obtain ⟨l, text⟩ := p
        obtain ⟨rfl, hl, he⟩ := (read_eq_ok_iff hne).1 hr
        -- A lexeme has a character at least, so what is left is shorter.
        have hpos := List.length_pos_iff.2 (text_ne_nil hl)
        obtain ⟨lexemes, rest, ht, hnone⟩ := ih text.length (by simp at hn; omega) text rfl
        exact ⟨l :: lexemes, rest, .cons hl he ht, hnone⟩

/-- The text behind a tiling of all that can be tiled is at its end or cannot be read on. -/
theorem readFrom_of_noneAt {rest : List Char} (h : NoneAt rest) :
    ∃ fault?, ∀ before, readFrom before rest = (before.reverse, rest, fault?) := by
  by_cases hne : rest = []
  · exact ⟨none, fun before => by rw [hne, readFrom]⟩
  · obtain ⟨fault, hf⟩ := (noneAt_iff_read_eq_error hne).1 h
    exact ⟨some fault, readFrom_of_read_eq_error hf⟩

/-- And so in one way only. -/
theorem Tiles.unique {source rest rest' : List Char} {lexemes lexemes' : List Lexeme}
    (h : Tiles source lexemes rest) (hn : NoneAt rest) (h' : Tiles source lexemes' rest') (hn' : NoneAt rest') :
    lexemes = lexemes' ∧ rest = rest' := by
  -- Reading goes along either tiling to its end, so both end alike.
  obtain ⟨fault?, hf⟩ := readFrom_of_noneAt hn
  obtain ⟨fault?', hf'⟩ := readFrom_of_noneAt hn'
  have heq := (readFrom_tiles h []).symm.trans (readFrom_tiles h' [])
  rw [hf, hf'] at heq
  simpa using And.intro (congrArg Prod.fst heq) (congrArg (fun x => x.2.1) heq)

/-! ## Tokens -/

/-- The tokens of lexemes that stand one behind the other from a cursor on. -/
def tokens (k : Cursor) : List Lexeme → List Token
  | [] => []
  | l :: lexemes => l.token k :: tokens (k.readAll l.text) lexemes

theorem place_eq (k : Cursor) (before : List TokenItem) (lexemes : List Lexeme) :
    place k before lexemes =
      (k.readAll (lexemes.flatMap Lexeme.text), ((tokens k lexemes).map .ok).reverse ++ before) := by
  induction lexemes generalizing k before with
  | nil => rfl
  | cons l lexemes ih => simp [place, tokens, ih, Cursor.readAll_append]

theorem tokens_append (k : Cursor) (before after : List Lexeme) :
    tokens k (before ++ after) = tokens k before ++ tokens (k.readAll (before.flatMap Lexeme.text)) after := by
  induction before generalizing k with
  | nil => rfl
  | cons l before ih => simp [tokens, ih, Cursor.readAll_append]

theorem length_tokens (k : Cursor) (lexemes : List Lexeme) : (tokens k lexemes).length = lexemes.length := by
  induction lexemes generalizing k with
  | nil => rfl
  | cons l lexemes ih => simp [tokens, ih]

theorem tokenizeFrom_of_tiles {source : List Char} {lexemes : List Lexeme} (h : Tiles source lexemes [])
    (k : Cursor) : tokenizeFrom k source = (tokens k lexemes).map .ok := by
  have hread : readAll source = (lexemes, [], none) := by
    rw [readAll, readFrom_tiles h, readFrom]
    simp
  simp [tokenizeFrom, hread, place_eq]

theorem tokenizeFrom_of_fault {source rest : List Char} {lexemes : List Lexeme} {fault : Fault}
    (h : Tiles source lexemes rest) (hf : read rest = .error fault) (k : Cursor) :
    tokenizeFrom k source = (tokens k lexemes).map .ok ++
      [.error (fault.error (k.readAll (lexemes.flatMap Lexeme.text)) rest)] := by
  have hread : readAll source = (lexemes, rest, some fault) := by
    rw [readAll, readFrom_tiles h, readFrom_of_read_eq_error hf]
    simp
  simp [tokenizeFrom, hread, place_eq]

/-- Each text is tiled as far as it can be, and either the tiles are all of it, or it cannot be read on. -/
theorem tiles_cases (source : List Char) :
    (∃ lexemes, Tiles source lexemes []) ∨
      ∃ lexemes rest fault, Tiles source lexemes rest ∧ read rest = .error fault ∧ rest ≠ [] := by
  obtain ⟨lexemes, rest, h, hn⟩ := exists_tiles source
  by_cases hne : rest = []
  · exact .inl ⟨lexemes, hne ▸ h⟩
  · obtain ⟨fault, hf⟩ := (noneAt_iff_read_eq_error hne).1 hn
    exact .inr ⟨lexemes, rest, fault, h, hf, hne⟩

/-- An item of a text is the token of a tile, or the error about what the tiles leave. -/
theorem exists_tiles_of_mem_tokenize {s : String} {item : TokenItem} (h : item ∈ tokenize s) :
    ∃ lexemes rest, Tiles s.toList lexemes rest ∧ ((∃ t ∈ tokens .start lexemes, item = .ok t) ∨
      ∃ fault, read rest = .error fault ∧
        item = .error (fault.error (Cursor.start.readAll (lexemes.flatMap Lexeme.text)) rest)) := by
  rcases tiles_cases s.toList with ⟨lexemes, ht⟩ | ⟨lexemes, rest, fault, ht, hf, -⟩
  · rw [tokenize, tokenizeFrom_of_tiles ht] at h
    obtain ⟨t, hmem, rfl⟩ := List.mem_map.1 h
    exact ⟨lexemes, [], ht, .inl ⟨t, hmem, rfl⟩⟩
  · rw [tokenize, tokenizeFrom_of_fault ht hf, List.mem_append, List.mem_singleton] at h
    rcases h with h | rfl
    · obtain ⟨t, hmem, rfl⟩ := List.mem_map.1 h
      exact ⟨lexemes, rest, ht, .inl ⟨t, hmem, rfl⟩⟩
    · exact ⟨lexemes, rest, ht, .inr ⟨fault, hf, rfl⟩⟩

/-- Without an error, the tokens are those of tiles that are all of the text. -/
theorem tiles_of_tokenize {s : String} (hs : ∀ item ∈ tokenize s, ∃ token, item = .ok token) :
    ∃ lexemes, Tiles s.toList lexemes [] ∧ tokenize s = (tokens .start lexemes).map .ok := by
  rcases tiles_cases s.toList with ⟨lexemes, ht⟩ | ⟨lexemes, rest, fault, ht, hf, -⟩
  · exact ⟨lexemes, ht, tokenizeFrom_of_tiles ht .start⟩
  · have htokens : tokenize s = _ := tokenizeFrom_of_fault ht hf .start
    obtain ⟨token, htoken⟩ := hs _ (by rw [htokens]; exact List.mem_append_right _ List.mem_cons_self)
    cases htoken

end Lexeme

open Lexeme in
/-- The tokenizer accepts exactly the texts that legal lexemes tile. Of any text it yields the tokens of the
one longest tiling, each placed where its lexeme begins, and then an error exactly if the tiling leaves
something, where no lexeme stands. -/
theorem tokenize_tiles (src : String) :
    ((∀ item ∈ tokenize src, ∃ t, item = .ok t) ↔ ∃ lexemes, Tiles src.toList lexemes []) ∧
      ∃ lexemes rest, Tiles src.toList lexemes rest ∧ NoneAt rest ∧
        (∀ lexemes' rest', Tiles src.toList lexemes' rest' → NoneAt rest' → lexemes' = lexemes ∧ rest' = rest) ∧
        (rest = [] ∧ tokenize src = (tokens .start lexemes).map .ok ∨
          rest ≠ [] ∧ ∃ e, tokenize src = (tokens .start lexemes).map .ok ++ [.error e]) ∧
        ∀ before l after, lexemes = before ++ l :: after → ∃ t, (tokenize src)[before.length]? = some (.ok t) ∧
          t = l.token (Cursor.start.readAll (before.flatMap Lexeme.text)) ∧
          t.position.offset = byteSize (before.flatMap Lexeme.text) := by
  have hplace (lexemes : List Lexeme) (tail : List TokenItem)
      (h : tokenize src = (tokens .start lexemes).map .ok ++ tail) :
      ∀ before l after, lexemes = before ++ l :: after → ∃ t, (tokenize src)[before.length]? = some (.ok t) ∧
        t = l.token (Cursor.start.readAll (before.flatMap Lexeme.text)) ∧
        t.position.offset = byteSize (before.flatMap Lexeme.text) := by
    rintro before l after rfl
    refine ⟨_, ?_, rfl, by rw [Cursor.readAll_start]; rfl⟩
    rw [h, tokens_append, List.map_append, List.append_assoc,
      List.getElem?_append_right (by simp [length_tokens])]
    simp [length_tokens, tokens]
  rcases tiles_cases src.toList with ⟨lexemes, h⟩ | ⟨lexemes, rest, fault, h, hf, hne⟩
  · have htokens : tokenize src = (tokens .start lexemes).map .ok := tokenizeFrom_of_tiles h .start
    refine ⟨⟨fun _ => ⟨lexemes, h⟩, fun _ item hi => ?_⟩, lexemes, [], h, noneAt_nil,
      fun _ _ h' hn' => h'.unique hn' h noneAt_nil, .inl ⟨rfl, htokens⟩, hplace lexemes [] (by simpa using htokens)⟩
    rw [htokens] at hi
    obtain ⟨t, -, rfl⟩ := List.mem_map.1 hi
    exact ⟨t, rfl⟩
  · have htokens := tokenizeFrom_of_fault h hf .start
    have hn : NoneAt rest := (noneAt_iff_read_eq_error hne).2 ⟨fault, hf⟩
    refine ⟨⟨fun hall => ?_, fun ⟨lexemes', h'⟩ => ?_⟩, lexemes, rest, h, hn,
      fun _ _ h' hn' => h'.unique hn' h hn, .inr ⟨hne, _, htokens⟩, hplace lexemes _ htokens⟩
    · obtain ⟨t, ht⟩ := hall _ (by rw [tokenize, htokens]; exact List.mem_append_right _ List.mem_cons_self)
      cases ht
    · exact absurd (h.unique hn h' noneAt_nil).2 hne

end TagLint
