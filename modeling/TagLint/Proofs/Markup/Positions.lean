import TagLint.Proofs.Markup.Faults
import TagLint.Proofs.Markup.Tiling
/-!
# Every reported place is exact

Tokens, attributes and errors are placed by a cursor that reads on, and their places are what counting in
the text before them gives. No place lies inside a line break, each is the boundary of a character, and what
is placed stands there (`tokenize_positions`).
-/

namespace TagLint

/-! ## Tokens in their text -/

namespace TokenKind

def attributes : TokenKind → List Attribute
  | .openTag _ attributes | .selfClosingTag _ attributes => attributes
  | _ => []

/-- What a token was read from, as far as the token tells: of a tag its opener and its name. -/
def opening : TokenKind → List Char
  | .openTag name _ | .selfClosingTag name _ => '<' :: name.toList
  | .closeTag name => '<' :: '/' :: name.toList
  | .comment body => Lexeme.commentStart ++ body.toList ++ ['-', '-', '>']
  | .declaration body => body.toList
  | .text content true => Lexeme.cdataStart ++ content.toList ++ Lexeme.cdataEnd
  | .text content false => content.toList

end TokenKind

/-- An attribute stands in a tag that is `written` between `before` and `after`: its name at its place, its
value behind it. -/
def Attribute.StandsIn (a : Attribute) (src : String) (before written after : List Char) : Prop :=
  ∃ passed between more, passed ≠ [] ∧ written = passed ++ (a.name.toList ++ (between ++ (a.value.toList ++ more))) ∧
    a.position.Splits src (before ++ passed) (a.name.toList ++ (between ++ (a.value.toList ++ more)) ++ after)

/-- A token stands in a text as what is `written` between `before` and `after`. -/
structure Token.StandsAs (t : Token) (src : String) (before written after : List Char) : Prop where
  begins : t.position.Splits src before (written ++ after)
  ends : (Position.behind (before ++ written)).Splits src (before ++ written) after
  opening : t.kind.opening <+: written
  /-- The content of a section ends where its length says, and there its closing mark stands. -/
  content : ∀ content, t.kind = .text content true → ∃ p : Position,
    p.offset = t.position.offset + byteSize Lexeme.cdataStart + content.utf8ByteSize ∧
      p.Splits src (before ++ (Lexeme.cdataStart ++ content.toList)) (Lexeme.cdataEnd ++ after)
  attributes : ∀ a ∈ t.kind.attributes, a.StandsIn src before written after
  increasing : t.kind.attributes.Pairwise fun a b => a.position.offset < b.position.offset

namespace WrittenAttribute

/-- The attributes of a tag, the first of them written behind a cursor. -/
def placed (k : Cursor) : List WrittenAttribute → List Attribute
  | [] => []
  | a :: rest => ⟨.ofList a.name, .ofList a.value, (k.readAll a.gap).position⟩ :: placed (k.readAll a.text) rest

theorem place_eq (k : Cursor) (before : List Attribute) (attributes : List WrittenAttribute) :
    place k before attributes = before.reverse ++ placed k attributes := by
  induction attributes generalizing k before with
  | nil => simp [place, placed]
  | cons a rest ih => simp [place, placed, ih, text, Cursor.readAll_append]

theorem mem_placed {front : List Char} {attributes : List WrittenAttribute} {a : Attribute}
    (h : a ∈ placed (.behind front) attributes) : ∃ xs w ys, attributes = xs ++ w :: ys ∧
      a = ⟨.ofList w.name, .ofList w.value, .behind (front ++ xs.flatMap text ++ w.gap)⟩ := by
  induction attributes generalizing front with
  | nil => cases h
  | cons w rest ih =>
    rw [placed, Cursor.readAll_behind, Cursor.readAll_behind] at h
    rcases List.mem_cons.1 h with rfl | h
    · exact ⟨[], w, rest, rfl, by simp [Cursor.behind]⟩
    · obtain ⟨xs, v, ys, rfl, rfl⟩ := ih h
      exact ⟨w :: xs, v, ys, rfl, by simp⟩

/-- Each attribute stands behind the one before. -/
theorem pairwise_placed (front : List Char) (attributes : List WrittenAttribute) :
    (placed (.behind front) attributes).Pairwise fun a b => a.position.offset < b.position.offset := by
  induction attributes generalizing front with
  | nil => exact .nil
  | cons w rest ih =>
    rw [placed, Cursor.readAll_behind, Cursor.readAll_behind]
    refine List.pairwise_cons.2 ⟨fun b hb => ?_, ih _⟩
    obtain ⟨xs, v, ys, -, rfl⟩ := mem_placed hb
    have hpos : 0 < byteSize w.assignment := byteSize_pos (by simp [assignment])
    show byteSize (front ++ w.gap) < byteSize (front ++ w.text ++ xs.flatMap text ++ v.gap)
    simp only [byteSize_append, text]
    omega

end WrittenAttribute

/-- A fault is an error behind what was passed before it. -/
theorem Fault.error_eq {fault : Fault} {passed : List Char} (k : Cursor) :
    fault.error k (passed ++ fault.rest) = ⟨(k.readAll passed).position, fault.cause.message⟩ := by
  simp [error]

namespace Lexeme

/-! ## One lexeme -/

theorem text_eq_concat_of_markup {l : Lexeme} (h : l.isData = false) : ∃ front, l.text = front ++ ['>'] := by
  cases l with
  | data => cases h
  | tag name attributes gap selfClosing =>
    cases selfClosing with
    | false => exact ⟨_, rfl⟩
    | true => exact ⟨['<'] ++ name ++ attributes.flatMap WrittenAttribute.text ++ gap ++ ['/'], by simp [text]⟩
  | comment body => exact ⟨commentStart ++ body ++ ['-', '-'], by simp [text]⟩
  | cdata body => exact ⟨cdataStart ++ body ++ [']', ']'], by simp [text, cdataEnd]⟩
  | instruction body => exact ⟨['<', '?'] ++ body ++ ['?'], by simp [text]⟩
  | _ => exact ⟨_, rfl⟩

/-- A lexeme ends in no line break. -/
theorem EndsBefore.not_cutsBreak {l : Lexeme} {after : List Char} (h : l.EndsBefore after) (before : List Char) :
    ¬ CutsBreak (before ++ l.text) after := by
  rintro ⟨hlast, hhead⟩
  cases hd : l.isData with
  -- Data ends before an angle bracket, and everything else with one.
  | true => exact absurd (h hd '\n' hhead) (by decide)
  | false =>
    obtain ⟨front, hfront⟩ := text_eq_concat_of_markup hd
    rw [hfront, ← List.append_assoc, List.getLast?_concat] at hlast
    cases hlast

theorem opening_kind (k : Cursor) (l : Lexeme) : (l.kind k).opening <+: l.text := by
  cases l with
  | tag name attributes gap selfClosing =>
    have hopening : ('<' :: name) <+: (tag name attributes gap selfClosing).text :=
      ⟨attributes.flatMap WrittenAttribute.text ++ gap ++ if selfClosing then ['/', '>'] else ['>'], by simp [text]⟩
    cases selfClosing <;> simpa [kind, TokenKind.opening] using hopening
  | closeTag name gap => exact ⟨gap ++ ['>'], by simp [kind, TokenKind.opening, text]⟩
  | _ => simp [kind, TokenKind.opening, text]

theorem attributes_kind {k : Cursor} {l : Lexeme} {a : Attribute} (h : a ∈ (l.kind k).attributes) :
    ∃ name attributes gap selfClosing, l = .tag name attributes gap selfClosing ∧
      a ∈ WrittenAttribute.placed (k.readAll ('<' :: name)) attributes := by
  cases l with
  | tag name attributes gap selfClosing =>
    refine ⟨name, attributes, gap, selfClosing, rfl, ?_⟩
    cases selfClosing <;> simpa [kind, TokenKind.attributes, WrittenAttribute.place_eq] using h
  | _ => cases h

theorem pairwise_kind (front : List Char) (l : Lexeme) :
    (l.kind (.behind front)).attributes.Pairwise fun a b => a.position.offset < b.position.offset := by
  cases l with
  | tag name attributes gap selfClosing =>
    have hplaced := WrittenAttribute.pairwise_placed (front ++ '<' :: name) attributes
    rw [← Cursor.readAll_behind] at hplaced
    cases selfClosing <;> simpa [kind, TokenKind.attributes, WrittenAttribute.place_eq] using hplaced
  | _ => exact .nil

/-- An attribute of a legal tag stands in what the tag is written as. -/
theorem attribute_standsIn_tag {name gap before after : List Char} {attributes : List WrittenAttribute}
    {selfClosing : Bool} (hl : (tag name attributes gap selfClosing).Legal) {src : String} {a : Attribute}
    (hsrc : src.toList = before ++ ((tag name attributes gap selfClosing).text ++ after))
    (ha : a ∈ WrittenAttribute.placed (.behind (before ++ '<' :: name)) attributes) :
    a.StandsIn src before (tag name attributes gap selfClosing).text after := by
  obtain ⟨xs, w, ys, rfl, rfl⟩ := WrittenAttribute.mem_placed ha
  have hw : w.Legal := by
    cases hl with
    | tag _ hattributes => exact hattributes w (by simp)
  obtain ⟨c, rest, hname, hc, -⟩ := hw.name
  have hwritten : (tag name (xs ++ w :: ys) gap selfClosing).text =
      ('<' :: name ++ xs.flatMap WrittenAttribute.text ++ w.gap) ++ (w.name ++
        ((w.beforeEquals ++ '=' :: w.afterEquals ++ [w.quote]) ++ (w.value ++
          (w.quote :: ys.flatMap WrittenAttribute.text ++ gap ++ if selfClosing then ['/', '>'] else ['>'])))) := by
    simp [text, WrittenAttribute.text, WrittenAttribute.assignment]
  refine ⟨'<' :: name ++ xs.flatMap WrittenAttribute.text ++ w.gap, _, _, by simp,
    by rw [String.toList_ofList, String.toList_ofList]; exact hwritten, ?_⟩
  rw [hwritten] at hsrc
  have hplace : before ++ '<' :: name ++ xs.flatMap WrittenAttribute.text ++ w.gap =
      before ++ ('<' :: name ++ xs.flatMap WrittenAttribute.text ++ w.gap) := by
    simp
  rw [hplace, String.toList_ofList, String.toList_ofList]
  -- What stands there is a name, which begins with no line feed.
  refine Position.splits_behind (by rw [hsrc]; simp only [List.append_assoc]) fun hcut => ?_
  rw [hname] at hcut
  obtain rfl : c = '\n' := by simpa using hcut.2
  exact absurd hc (by decide)

/-- The token of a legal lexeme stands where the lexeme is written. -/
theorem Legal.token_standsAs {l : Lexeme} (hl : l.Legal) {src : String} {before after : List Char}
    (hsrc : src.toList = before ++ (l.text ++ after)) (hbefore : ¬ CutsBreak before (l.text ++ after))
    (hafter : l.EndsBefore after) : (l.token (.behind before)).StandsAs src before l.text after where
  begins := Position.splits_behind hsrc hbefore
  ends := Position.splits_behind (by simpa using hsrc) (hafter.not_cutsBreak before)
  opening := opening_kind _ l
  content := by
    intro content hk
    obtain ⟨body, rfl, rfl⟩ : ∃ body, l = .cdata body ∧ content = .ofList body := by
      cases l with
      | cdata body => exact ⟨body, rfl, by simpa [token, kind, eq_comm] using hk⟩
      | tag name attributes gap selfClosing => cases selfClosing <;> cases hk
      | _ => cases hk
    refine ⟨.behind (before ++ (cdataStart ++ body)), ?_, ?_⟩
    · show byteSize (before ++ (cdataStart ++ body)) = byteSize before + byteSize cdataStart + byteSize body
      rw [byteSize_append, byteSize_append, Nat.add_assoc]
    · rw [String.toList_ofList]
      exact Position.splits_behind (by simpa [text] using hsrc) fun hcut => absurd hcut.2 (by simp [cdataEnd])
  attributes := by
    intro a ha
    obtain ⟨name, attributes, gap, selfClosing, rfl, hplaced⟩ := attributes_kind ha
    rw [Cursor.readAll_behind] at hplaced
    exact attribute_standsIn_tag hl hsrc hplaced
  increasing := pairwise_kind before l

/-! ## All lexemes -/

theorem Tiles.not_cutsBreak {source rest : List Char} {lexemes : List Lexeme} (h : Tiles source lexemes rest)
    (before : List Char) (hb : ¬ CutsBreak before source) : ¬ CutsBreak (before ++ lexemes.flatMap text) rest := by
  induction h generalizing before with
  | nil => simpa using hb
  | @cons l lexemes text rest hl hr _ ih =>
    have hall := ih (before ++ l.text) (hr.not_cutsBreak before)
    simpa using hall

theorem Tiles.split {source rest : List Char} {xs ys : List Lexeme} (h : Tiles source (xs ++ ys) rest) :
    ∃ mid, Tiles source xs mid ∧ Tiles mid ys rest := by
  induction xs generalizing source with
  | nil => exact ⟨source, .nil, h⟩
  | cons l xs ih =>
    cases h with
    | cons hl hr h =>
      obtain ⟨mid, hxs, hys⟩ := ih h
      exact ⟨mid, .cons hl hr hxs, hys⟩

theorem mem_tokens {front : List Char} {lexemes : List Lexeme} {t : Token}
    (h : t ∈ tokens (.behind front) lexemes) :
    ∃ xs l ys, lexemes = xs ++ l :: ys ∧ t = l.token (.behind (front ++ xs.flatMap text)) := by
  induction lexemes generalizing front with
  | nil => cases h
  | cons l lexemes ih =>
    rw [tokens, Cursor.readAll_behind] at h
    rcases List.mem_cons.1 h with rfl | h
    · exact ⟨[], l, lexemes, rfl, by simp⟩
    · obtain ⟨xs, l', ys, rfl, rfl⟩ := ih h
      exact ⟨l :: xs, l', ys, rfl, by simp⟩

/-- Each token of a tiled text stands where its tile is written. -/
theorem Tiles.token_standsAs {src : String} {rest : List Char} {lexemes : List Lexeme}
    (h : Tiles src.toList lexemes rest) {t : Token} (ht : t ∈ tokens .start lexemes) :
    ∃ (before : List Char) (l : Lexeme) (after : List Char), l.Legal ∧ t.StandsAs src before l.text after := by
  rw [← Cursor.behind_nil] at ht
  obtain ⟨xs, l, ys, rfl, rfl⟩ := mem_tokens ht
  obtain ⟨mid, hxs, hmid⟩ := h.split
  have hcut := hxs.not_cutsBreak [] (fun hc => by cases hc.1)
  have hsrc := hxs.text_eq
  cases hmid with
  | cons hl hr _ => exact ⟨_, l, _, hl, hl.token_standsAs hsrc hcut hr⟩

/-- The error behind a tiling stands in what the tiles leave. -/
theorem Tiles.fault_splits {src : String} {rest : List Char} {lexemes : List Lexeme} {fault : Fault}
    (h : Tiles src.toList lexemes rest) (hf : read rest = .error fault) :
    ∃ passed, rest = passed ++ fault.rest ∧
      (fault.error (.behind (lexemes.flatMap text)) rest).position.Splits src (lexemes.flatMap text ++ passed)
        fault.rest := by
  obtain ⟨passed, hrest, hhead⟩ := fault_of_read hf
  have hplace : (fault.error (.behind (lexemes.flatMap text)) rest).position =
      .behind (lexemes.flatMap text ++ passed) := by
    rw [hrest, Fault.error_eq, Cursor.readAll_behind]
    rfl
  refine ⟨passed, hrest, ?_⟩
  rw [hplace]
  refine Position.splits_behind (by rw [h.text_eq, hrest, List.append_assoc]) fun hcut => ?_
  obtain ⟨c, hc, hne⟩ := hhead hcut.2
  have hlast := hcut.1
  rw [List.getLast?_append, Option.mem_def.1 hc] at hlast
  exact hne (Option.some.inj hlast)

end Lexeme

/-- Each token of a text stands where it is placed, with its attributes in order inside it, and an error
stands in the construct that cannot be read on. All these places are counted exactly, and none lies inside a
line break. -/
theorem tokenize_positions (src : String) :
    (∀ t, .ok t ∈ tokenize src → ∃ before l after, Lexeme.Legal l ∧ t.StandsAs src before l.text after) ∧
      ∀ e, .error e ∈ tokenize src → ∃ lexemes passed after,
        Lexeme.Tiles src.toList lexemes (passed ++ after) ∧ Lexeme.NoneAt (passed ++ after) ∧
          e.position.Splits src (lexemes.flatMap Lexeme.text ++ passed) after ∧
          byteSize (lexemes.flatMap Lexeme.text) ≤ e.position.offset := by
  rcases Lexeme.tiles_cases src.toList with ⟨lexemes, h⟩ | ⟨lexemes, rest, fault, h, hf, hne⟩
  · have htokens : tokenize src = _ := Lexeme.tokenizeFrom_of_tiles h .start
    rw [htokens]
    refine ⟨fun t ht => ?_, fun e he => ?_⟩
    · obtain ⟨u, hu, rfl⟩ : ∃ u ∈ Lexeme.tokens .start lexemes, u = t := by simpa using ht
      exact h.token_standsAs hu
    · simp at he
  · have htokens : tokenize src = _ := Lexeme.tokenizeFrom_of_fault h hf .start
    rw [htokens, Cursor.readAll_start]
    refine ⟨fun t ht => ?_, fun e he => ?_⟩
    · obtain ⟨u, hu, rfl⟩ : ∃ u ∈ Lexeme.tokens .start lexemes, u = t := by simpa using ht
      exact h.token_standsAs hu
    · obtain rfl : e = _ := by simpa using he
      obtain ⟨passed, hrest, hsplits⟩ := h.fault_splits hf
      refine ⟨lexemes, passed, fault.rest, hrest ▸ h, hrest ▸ (Lexeme.noneAt_iff_read_eq_error hne).2 ⟨fault, hf⟩,
        hsplits, ?_⟩
      rw [hsplits.counted]
      show _ ≤ byteSize (_ ++ passed)
      rw [byteSize_append]
      exact Nat.le_add_right _ _

end TagLint
