import TagLint.Proofs.Markup.Tiling
import TagLint.Proofs.Nesting.Matching
/-!
# A truncated document never passes

Reading is local: the tiles of a text that is cut off are tiles of the whole text, but for character data at the
cut. So the tags before a cut are the first tags of the document, and before the root is complete they leave an
element open (`truncated_rejected`).
-/

namespace TagLint

/-! ## Inside the root something is open -/

/-- Some of the tags of one element, but not all of them, leave something open. -/
theorem Linearises.openTags_ne_nil {before after : List Token} {root : Element}
    (h : Linearises (before ++ after) [root]) (hb : before ≠ []) (ha : after ≠ []) : openTags before ≠ [] := by
  obtain ⟨t, before, rfl⟩ := List.exists_cons_of_ne_nil hb
  generalize htags : t :: before ++ after = tags at h
  cases h with
  | selfClosing hrest =>
    cases hrest
    simp only [List.cons_append, List.cons.injEq, List.append_eq_nil_iff] at htags
    exact absurd htags.2.2 ha
  | @element name attributes position closed inner _ children _ hinner hrest =>
    cases hrest
    simp only [List.cons_append, List.cons.injEq] at htags
    obtain ⟨rfl, hrest⟩ := htags
    -- Behind the place there is at least the close tag of the root, so the place is inside it.
    obtain hnil | ⟨init, last, rfl⟩ := List.eq_nil_or_concat after
    · exact absurd hnil ha
    · rw [List.concat_eq_append, ← List.append_assoc] at hrest
      obtain ⟨rfl, -⟩ := List.append_inj' hrest rfl
      intro hnone
      have hopen := hinner.closesNothing before init rfl [⟨name, attributes, position⟩]
      rw [show before.foldl Token.nest [⟨name, attributes, position⟩] = [] from hnone] at hopen
      exact absurd (List.suffix_nil.1 hopen) (List.cons_ne_nil _ _)

/-! ## Reading up to a cut -/

namespace Lexeme

/-- Whether a lexeme is a tag. -/
def isTag : Lexeme → Bool
  | .closeTag .. | .tag .. => true
  | _ => false

theorem isTag_token (k : Cursor) (l : Lexeme) : (l.token k).isTag = l.isTag := by
  cases l with
  | tag name attributes gap selfClosing => cases selfClosing <;> rfl
  | _ => rfl

/-- The tiles of a text that is cut off are the first tiles of the whole text, but for character data at the
cut, which may go on behind it. -/
theorem Tiles.of_cut {source rest text : List Char} {lexemes all : List Lexeme} (h : Tiles text lexemes [])
    (hs : source = text ++ rest) (hall : Tiles source all []) :
    ∃ shared cut more, lexemes = shared ++ cut ∧ all = shared ++ more ∧ ∀ l ∈ cut, l.isTag = false := by
  generalize hnil : [] = left at h
  induction h generalizing source all with
  | nil => exact ⟨[], [], all, rfl, rfl, by simp⟩
  | @cons l lexemes text left hl hr htiles ih =>
    subst hnil
    by_cases hend : l.EndsBefore (text ++ rest)
    · -- The lexeme may end here in the whole text as well, so it is the first tile there.
      have hread : read source = .ok (l, text ++ rest) := by
        rw [hs, List.append_assoc]
        exact read_of_legal hl hend
      cases hall with
      | nil => exact absurd (List.append_eq_nil_iff.1 (List.append_eq_nil_iff.1 hs.symm).1).1 (text_ne_nil hl)
      | cons hl' hr' hall' =>
        rw [read_of_legal hl' hr'] at hread
        obtain ⟨rfl, rfl⟩ : _ = l ∧ _ = text ++ rest := by simpa using hread
        obtain ⟨shared, cut, more, rfl, rfl, hcut⟩ := ih rfl hall' rfl
        exact ⟨_ :: shared, cut, more, rfl, rfl, hcut⟩
    · -- Only character data at the cut may end there and not in the whole text.
      have hdata : l.isData := by
        cases hd : l.isData with
        | true => rfl
        | false => exact absurd (fun h => by rw [hd] at h; cases h) hend
      obtain rfl : text = [] := by
        cases text with
        | nil => rfl
        | cons c text => exact absurd (fun hd d hc => hr hd d hc) hend
      obtain rfl : lexemes = [] := (htiles.unique noneAt_nil .nil noneAt_nil).1
      refine ⟨[], [l], all, rfl, rfl, fun l' hl' => ?_⟩
      obtain rfl := List.mem_singleton.1 hl'
      cases l' with
      | data => rfl
      | _ => cases hdata

/-- The tags among lexemes that stand at the start of a text. -/
def tags (lexemes : List Lexeme) : List Token := (tokens .start lexemes).filter Token.isTag

theorem filter_tokens_eq_nil_iff (k : Cursor) {lexemes : List Lexeme} :
    (tokens k lexemes).filter Token.isTag = [] ↔ ∀ l ∈ lexemes, l.isTag = false := by
  induction lexemes generalizing k with
  | nil => simp [tokens]
  | cons l lexemes ih =>
    rw [tokens, List.filter_cons, isTag_token]
    cases hl : l.isTag <;> simp [hl, ih]

theorem tags_append (lexemes more : List Lexeme) : tags (lexemes ++ more) =
    tags lexemes ++ (tokens (Cursor.start.readAll (lexemes.flatMap text)) more).filter Token.isTag := by
  rw [tags, tokens_append, List.filter_append]
  rfl

theorem tags_append_of_not_isTag {lexemes more : List Lexeme} (h : ∀ l ∈ more, l.isTag = false) :
    tags (lexemes ++ more) = tags lexemes := by
  rw [tags_append, (filter_tokens_eq_nil_iff _).2 h, List.append_nil]

theorem tags_ne_nil_of_linearises {lexemes : List Lexeme} {root : Element} (h : Linearises (tags lexemes) [root]) :
    tags lexemes ≠ [] := by
  generalize tags lexemes = written at h
  cases h <;> simp

/-- Behind tiles that write out an element there is no tag, if all tiles together write out one. -/
theorem not_isTag_behind {lexemes more : List Lexeme} {root root' : Element} (h : Linearises (tags lexemes) [root])
    (hall : Linearises (tags (lexemes ++ more)) [root']) : ∀ l ∈ more, l.isTag = false := by
  rw [tags_append] at hall
  refine (filter_tokens_eq_nil_iff (Cursor.start.readAll (lexemes.flatMap text))).1 ?_
  refine Decidable.byContradiction fun hmore => ?_
  exact hall.openTags_ne_nil (tags_ne_nil_of_linearises h) hmore (h.foldl_nest [])

/-- Of two ways in which the first tiles of a text write out an element and end with a tag, none goes further. -/
theorem eq_nil_of_linearises {before lexemes more : List Lexeme} {l : Lexeme} {root root' : Element} (hl : l.isTag)
    (h : before ++ [l] = lexemes ++ more) (hwritten : Linearises (tags lexemes) [root])
    (hall : Linearises (tags (before ++ [l])) [root']) : more = [] := by
  obtain hnil | ⟨init, last, rfl⟩ := List.eq_nil_or_concat more
  · exact hnil
  · have hmore := not_isTag_behind hwritten (h ▸ hall)
    rw [List.concat_eq_append, ← List.append_assoc] at h
    obtain ⟨-, hlast⟩ := List.append_inj' h rfl
    obtain rfl : l = last := by simpa using hlast
    rw [hmore l (by simp)] at hl
    cases hl

end Lexeme

open Lexeme

/-- An accepted text is tiled, and its tags are its root written out. -/
theorem tiles_of_checkWellFormed {src : String} {root : Element} (h : checkWellFormed (tokenize src) = .ok root) :
    ∃ lexemes, Tiles src.toList lexemes [] ∧ Linearises (tags lexemes) [root] := by
  obtain ⟨ts, hts, -, hwritten⟩ := linearises_of_checkWellFormed h
  obtain ⟨lexemes, ht, htokens⟩ : ∃ lexemes, Tiles src.toList lexemes [] ∧
      tokenize src = (tokens .start lexemes).map .ok := by
    apply tiles_of_tokenize
    intro item hi
    rw [hts] at hi
    obtain ⟨t, -, rfl⟩ := List.mem_map.1 hi
    exact ⟨t, rfl⟩
  obtain rfl := (List.map_inj_right fun _ _ h => Except.ok.inj h).1 (htokens.symm.trans hts)
  exact ⟨lexemes, ht, hwritten⟩

/-! ## Where the root ends -/

/-- The root element of a text ends at a byte offset: the tiles up to a tag write out the root, and the tag ends
at the offset. -/
def RootEndsAt (src : String) (root : Element) (offset : Nat) : Prop :=
  ∃ before l after, Tiles src.toList (before ++ [l] ++ after) [] ∧ l.isTag ∧ Linearises (tags (before ++ [l])) [root] ∧
    offset = byteSize ((before ++ [l]).flatMap Lexeme.text)

theorem exists_rootEndsAt {src : String} {root : Element} (h : checkWellFormed (tokenize src) = .ok root) :
    ∃ offset, RootEndsAt src root offset := by
  obtain ⟨lexemes, ht, hwritten⟩ := tiles_of_checkWellFormed h
  have htag : ∃ l ∈ lexemes.reverse, l.isTag := by
    refine Decidable.byContradiction fun hnone => tags_ne_nil_of_linearises hwritten ((filter_tokens_eq_nil_iff _).2 ?_)
    simpa using hnone
  -- Behind the last tag nothing belongs to the root.
  obtain ⟨l, hfind⟩ := Option.isSome_iff_exists.1 (List.find?_isSome.2 htag)
  obtain ⟨hl, after, before, hsplit, hafter⟩ := List.find?_eq_some_iff_append.1 hfind
  obtain rfl : lexemes = before.reverse ++ [l] ++ after.reverse := by simpa using congrArg List.reverse hsplit
  rw [tags_append_of_not_isTag (by simpa using hafter)] at hwritten
  exact ⟨_, before.reverse, l, after.reverse, ht, hl, hwritten, rfl⟩

theorem RootEndsAt.unique {src : String} {root root' : Element} {offset offset' : Nat}
    (h : RootEndsAt src root offset) (h' : RootEndsAt src root' offset') : offset = offset' := by
  obtain ⟨before, l, after, ht, hl, hwritten, rfl⟩ := h
  obtain ⟨before', l', after', ht', hl', hwritten', rfl⟩ := h'
  obtain ⟨heq, -⟩ := ht.unique noneAt_nil ht' noneAt_nil
  rcases List.append_eq_append_iff.1 heq with ⟨more, hmore, -⟩ | ⟨more, hmore, -⟩
  · rw [hmore, eq_nil_of_linearises hl' hmore hwritten hwritten', List.append_nil]
  · rw [hmore, eq_nil_of_linearises hl hmore hwritten' hwritten, List.append_nil]

theorem byteSize_le_of_tiles {src : String} {before after : List Lexeme} {rest : List Char}
    (h : Tiles src.toList (before ++ after) rest) : byteSize (before.flatMap Lexeme.text) ≤ src.utf8ByteSize := by
  have hsize : byteSize src.toList = src.utf8ByteSize := by rw [byteSize, String.ofList_toList]
  rw [← hsize, h.text_eq, List.flatMap_append, byteSize_append, byteSize_append]
  omega

/-! ## Main theorem -/

/-- An accepted text has one place where its root element ends. Cut off anywhere before it, the text is refused, and
something is reported. -/
theorem truncated_rejected {src : String} {root : Element} (h : checkWellFormed (tokenize src) = .ok root) :
    ∃ offset ≤ src.utf8ByteSize, RootEndsAt src root offset ∧
      (∀ root' offset', RootEndsAt src root' offset' → offset' = offset) ∧
      ∀ text rest : String, src = text ++ rest → text.utf8ByteSize < offset →
        ∃ ds, ds ≠ [] ∧ checkWellFormed (tokenize text) = .error ds := by
  obtain ⟨offset, hroot⟩ := exists_rootEndsAt h
  have ⟨before, l, after, hall, hl, hwritten, hoffset⟩ := hroot
  subst hoffset
  refine ⟨_, byteSize_le_of_tiles hall, hroot, fun _ _ h' => h'.unique hroot, fun text rest hs hlt => ?_⟩
  cases hc : checkWellFormed (tokenize text) with
  | error ds => exact ⟨ds, ne_nil_of_checkWellFormed hc, rfl⟩
  | ok root' =>
    obtain ⟨lexemes, htiles, hwritten'⟩ := tiles_of_checkWellFormed hc
    obtain ⟨shared, cut, more, rfl, hmore, hcut⟩ := htiles.of_cut (by rw [hs, String.toList_append]) hall
    rw [tags_append_of_not_isTag hcut] at hwritten'
    -- What is complete before the cut is the whole root, so the cut is behind it.
    obtain ⟨mid, rfl⟩ : ∃ mid, shared = before ++ [l] ++ mid := by
      rcases List.append_eq_append_iff.1 hmore with ⟨mid, hmid, -⟩ | ⟨mid, hmid, -⟩
      · exact ⟨mid, hmid⟩
      · refine ⟨[], ?_⟩
        rw [hmid, eq_nil_of_linearises hl hmid hwritten' hwritten]
        simp
    rw [List.append_assoc] at htiles
    exact absurd (byteSize_le_of_tiles htiles) (Nat.not_le.2 hlt)

/-- One element with text in it, and a line feed behind it. -/
theorem truncated_rejected_element : ∃ root, checkWellFormed (tokenize "<a>x</a>\n") = .ok root ∧
    ∃ offset ≤ 9, RootEndsAt "<a>x</a>\n" root offset ∧
      ∀ text rest : String, "<a>x</a>\n" = text ++ rest → text.utf8ByteSize < offset →
        ∃ ds, ds ≠ [] ∧ checkWellFormed (tokenize text) = .error ds := by
  have hok : (checkWellFormed (tokenize "<a>x</a>\n")).isOk = true := by decide +kernel
  cases h : checkWellFormed (tokenize "<a>x</a>\n") with
  | error ds => rw [h] at hok; cases hok
  | ok root =>
    obtain ⟨offset, hle, hroot, -, hcut⟩ := truncated_rejected h
    exact ⟨root, rfl, offset, hle, hroot, hcut⟩

end TagLint
