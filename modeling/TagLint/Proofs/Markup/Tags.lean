import TagLint.Proofs.Markup.References
/-!
# Tags are read exactly

Attributes, open tags and close tags: each reader takes off what the grammar allows, and takes it off
whenever it is there.
-/

namespace TagLint

/-! ## Names -/

/-- A name is read as far as it goes. -/
theorem span_name {name : List Char} (hn : IsName name) (rest : List Char)
    (hr : ∀ c ∈ rest.head?, isNameChar c = false) :
    (name ++ rest).takeWhile isNameChar = name ∧ (name ++ rest).dropWhile isNameChar = rest :=
  (span_iff _ _ _ _).2 ⟨rfl, hn.all_isNameChar, hr⟩

theorem span_spaces {gap : List Char} (hg : IsSpaces gap) (rest : List Char)
    (hr : ∀ c ∈ rest.head?, isSpace c = false) :
    (gap ++ rest).takeWhile isSpace = gap ∧ (gap ++ rest).dropWhile isSpace = rest :=
  (span_iff _ _ _ _).2 ⟨rfl, hg, hr⟩

theorem isSpaces_takeWhile (text : List Char) : IsSpaces (text.takeWhile isSpace) :=
  fun c hc => List.all_eq_true.1 List.all_takeWhile c hc

/-- Characters up to the first that cannot go on with a name are a name if they begin with one. -/
theorem isName_takeWhile {c : Char} {text : List Char} (hc : isNameStart c) :
    IsName ((c :: text).takeWhile isNameChar) := by
  refine ⟨c, text.takeWhile isNameChar, ?_, hc, fun d hd => List.all_eq_true.1 List.all_takeWhile d hd⟩
  simp [isNameChar_of_isNameStart hc]

theorem checkName_eq_ok_iff {opener : Opener} {text : List Char} :
    checkName opener text = .ok () ↔ ∃ c rest, text = c :: rest ∧ isNameStart c := by
  cases text with
  | nil => simp [checkName]
  | cons c text =>
    simp only [checkName]
    constructor
    · intro h
      split at h
      next hc => exact ⟨c, text, rfl, hc⟩
      next => split at h <;> cases h
    · rintro ⟨d, rest, h, hd⟩
      obtain ⟨rfl, -⟩ := List.cons.inj h
      rw [if_pos hd]

/-! ## Attributes -/

theorem readValue_eq_ok_iff {tag name : String} {quote : Char} {text value rest : List Char} :
    readValue tag name quote text = .ok (value, rest) ↔
      (quote = '"' ∨ quote = '\'') ∧ text = value ++ quote :: rest ∧ (∀ c ∈ value, c ≠ quote ∧ c ≠ '<') ∧
        ReferencesRead value := by
  have hrun (v r : List Char) : readRun (fun c => c == quote || c == '<') text = .ok (v, r) ↔
      text = v ++ r ∧ (∀ c ∈ v, c ≠ quote ∧ c ≠ '<') ∧ (∀ c ∈ r.head?, c == quote || c == '<') ∧ ReferencesRead v := by
    simp only [readRun_eq_ok_iff, Bool.or_eq_false_iff, beq_eq_false_iff_ne]
  unfold readValue
  constructor
  · intro h
    split at h
    next hq =>
      split at h
      next => cases h
      next => cases h
      next v c r hr =>
        split at h
        next hc =>
          obtain ⟨rfl, rfl⟩ : v = value ∧ r = rest := by simpa using h
          obtain ⟨ht, hv, -, href⟩ := (hrun _ _).1 hr
          exact ⟨hq, by rw [ht, hc], hv, href⟩
        next => cases h
    next => cases h
  · rintro ⟨hq, ht, hv, href⟩
    rw [if_pos hq, (hrun value (quote :: rest)).2 ⟨ht, hv, by simp, href⟩]
    simp

/-- What stands before the value of an attribute, from the space before its name on. -/
def WrittenAttribute.opening (a : WrittenAttribute) : List Char :=
  a.gap ++ a.name ++ a.beforeEquals ++ '=' :: a.afterEquals ++ [a.quote]

theorem WrittenAttribute.text_append (a : WrittenAttribute) (rest : List Char) :
    a.text ++ rest = a.opening ++ (a.value ++ a.quote :: rest) := by
  simp [text, opening, assignment]

theorem WrittenAttribute.Legal.isSpace_quote {a : WrittenAttribute} (ha : a.Legal) : isSpace a.quote = false := by
  rcases ha.quote with h | h <;> rw [h] <;> decide

/-- Up to the value an attribute is read for what it is, whatever stands there. -/
theorem readAttribute_opening (tag : String) {a : WrittenAttribute} (ha : a.Legal) (inside : List Char) :
    readAttribute tag a.gap (a.name ++ (a.beforeEquals ++ '=' :: (a.afterEquals ++ a.quote :: inside))) =
      match readValue tag (.ofList a.name) a.quote inside with
      | .error fault => .error fault
      | .ok (value, rest) => .ok ({ a with value := value }, rest) := by
  -- From the back: each part ends where a character stands that cannot go on with it.
  obtain ⟨hafter, hinside⟩ := span_spaces ha.afterEquals (a.quote :: inside) (by simpa using ha.isSpace_quote)
  obtain ⟨hbefore, hequals⟩ := span_spaces ha.beforeEquals ('=' :: (a.afterEquals ++ a.quote :: inside))
    (by simp; decide)
  obtain ⟨hname, hassign⟩ := span_name ha.name (a.beforeEquals ++ '=' :: (a.afterEquals ++ a.quote :: inside))
    (not_isNameChar_head ha.beforeEquals (by simp; decide))
  cases hvalue : readValue tag (.ofList a.name) a.quote inside with
  | error fault => simp only [readAttribute, hname, hassign, hequals, hinside, hvalue]
  | ok parts => simp only [readAttribute, hname, hassign, hbefore, hequals, hafter, hinside, hvalue]

theorem legal_of_readAttribute {tag : String} {gap text rest : List Char} {c : Char} {a : WrittenAttribute}
    (hne : gap ≠ []) (hg : IsSpaces gap) (hc : isNameStart c)
    (h : readAttribute tag gap (c :: text) = .ok (a, rest)) : a.Legal := by
  simp only [readAttribute] at h
  split at h
  next afterEquals _ =>
    split at h
    next => cases h
    next quote inside _ =>
      split at h
      next => cases h
      next value r hr =>
        simp only [Except.ok.injEq, Prod.mk.injEq] at h
        obtain ⟨rfl, rfl⟩ := h
        obtain ⟨hq, -, hv, href⟩ := readValue_eq_ok_iff.1 hr
        exact {
          gap_ne_nil := hne
          gap := hg
          name := isName_takeWhile hc
          beforeEquals := isSpaces_takeWhile _
          afterEquals := isSpaces_takeWhile _
          quote := hq
          value := hv
          references := href }
  next => cases h

/-! ## Close tags -/

theorem readCloseTag_eq_ok_iff {source text rest : List Char} {l : Lexeme} :
    readCloseTag source text = .ok (l, rest) ↔
      ∃ name gap, l = .closeTag name gap ∧ text = name ++ gap ++ '>' :: rest ∧ IsName name ∧ IsSpaces gap := by
  constructor
  · intro h
    have htext := readCloseTag_eq h
    unfold readCloseTag at h
    split at h
    next => cases h
    next hname =>
      obtain ⟨c, text, rfl, hc⟩ := checkName_eq_ok_iff.1 hname
      simp only at h
      split at h
      next => cases h
      next d r _ =>
        split at h
        next hd =>
          simp only [Except.ok.injEq, Prod.mk.injEq] at h
          obtain ⟨rfl, rfl⟩ := h
          exact ⟨_, _, rfl, by simpa [Lexeme.text] using htext, isName_takeWhile hc, isSpaces_takeWhile _⟩
        next => cases h
  · rintro ⟨name, gap, rfl, rfl, hn, hg⟩
    obtain ⟨hgap, hend⟩ := span_spaces hg ('>' :: rest) (by simp; decide)
    obtain ⟨hname, hafter⟩ := span_name hn (gap ++ '>' :: rest)
      (not_isNameChar_head hg (by simp; decide))
    have hcheck : checkName .close (name ++ (gap ++ '>' :: rest)) = .ok () := by
      obtain ⟨c, more, rfl, hc, -⟩ := hn
      exact checkName_eq_ok_iff.2 ⟨c, _, rfl, hc⟩
    simp only [readCloseTag, List.append_assoc, hcheck, hname, hafter, hgap, hend, if_true]

/-! ## Open tags -/

theorem not_isSpace_of_isNameStart {c : Char} (h : isNameStart c) : isSpace c = false := by
  cases hs : isSpace c with
  | false => rfl
  | true => rw [← not_isNameChar_of_isSpace hs, isNameChar_of_isNameStart h]

/-- One step of reading a tag, from the first character that is no space. -/
theorem readTagRest_of_dropWhile {source name text rest : List Char} {read : List WrittenAttribute} {c : Char}
    (h : text.dropWhile isSpace = c :: rest) :
    readTagRest source name read text =
      if c = '>' then .ok (.tag name read.reverse (text.takeWhile isSpace) false, rest)
      else if c = '/' then
        match after? ['>'] rest with
        | some left => .ok (.tag name read.reverse (text.takeWhile isSpace) true, left)
        | none => .error ⟨rest, .slashInTag (.ofList name)⟩
      else if isNameStart c then
        if (text.takeWhile isSpace).isEmpty then .error ⟨c :: rest, .missingSpace (.ofList name)⟩
        else
          match readAttribute (.ofList name) (text.takeWhile isSpace) (c :: rest) with
          | .error fault => .error fault
          | .ok (a, left) =>
            if read.any (fun b => b.name == a.name) then
              .error ⟨c :: rest, .duplicateAttribute (.ofList name) (.ofList a.name)⟩
            else readTagRest source name (a :: read) left
      else .error ⟨c :: rest, .unexpectedInTag (.ofList name) c⟩ := by
  rw [readTagRest]
  split
  next hnil => rw [h] at hnil; cases hnil
  next d left hcons =>
    obtain ⟨rfl, rfl⟩ := List.cons.inj (h.symm.trans hcons)
    refine ite_congr rfl (fun _ => rfl) fun _ => ite_congr rfl (fun _ => rfl) fun _ => ?_
    refine ite_congr rfl (fun _ => ite_congr rfl (fun _ => rfl) fun _ => ?_) fun _ => rfl
    -- The reader keeps the equation of this match, because its termination rests on it.
    split
    next fault hr => rw [hr]
    next a left hr => rw [hr]

/-- Behind space, a name begins an attribute. -/
theorem readTagRest_of_isNameStart {source name text rest : List Char} {read : List WrittenAttribute} {c : Char}
    (h : text.dropWhile isSpace = c :: rest) (hc : isNameStart c) (hgap : ¬ (text.takeWhile isSpace).isEmpty) :
    readTagRest source name read text =
      match readAttribute (.ofList name) (text.takeWhile isSpace) (c :: rest) with
      | .error fault => .error fault
      | .ok (a, left) =>
        if read.any (fun b => b.name == a.name) then
          .error ⟨c :: rest, .duplicateAttribute (.ofList name) (.ofList a.name)⟩
        else readTagRest source name (a :: read) left := by
  have hgt : c ≠ '>' := by rintro rfl; exact absurd hc (by decide)
  have hslash : c ≠ '/' := by rintro rfl; exact absurd hc (by decide)
  rw [readTagRest_of_dropWhile h, if_neg hgt, if_neg hslash, if_pos hc, if_neg hgap]

/-- How a tag ends. -/
def tagEnd (selfClosing : Bool) : List Char := if selfClosing then ['/', '>'] else ['>']

theorem readTagRest_end (source name : List Char) (read : List WrittenAttribute) {gap : List Char}
    (hg : IsSpaces gap) (selfClosing : Bool) (rest : List Char) :
    readTagRest source name read (gap ++ (tagEnd selfClosing ++ rest)) =
      .ok (.tag name read.reverse gap selfClosing, rest) := by
  obtain ⟨hgap, hend⟩ := span_spaces hg (tagEnd selfClosing ++ rest)
    (by cases selfClosing <;> simp [tagEnd] <;> decide)
  cases selfClosing with
  | false =>
    rw [readTagRest_of_dropWhile hend, if_pos rfl, hgap]
    rfl
  | true =>
    rw [readTagRest_of_dropWhile hend, if_neg (by decide), if_pos rfl, hgap]
    simp [after?]

/-- Up to its value an attribute of a tag is read for what it is, whatever stands there. -/
theorem readTagRest_opening (source name : List Char) (read : List WrittenAttribute) {a : WrittenAttribute}
    (ha : a.Legal) (inside : List Char) :
    readTagRest source name read (a.opening ++ inside) =
      match readValue (.ofList name) (.ofList a.name) a.quote inside with
      | .error fault => .error fault
      | .ok (value, left) =>
        if read.any (fun b => b.name == a.name) then
          .error ⟨a.name ++ (a.beforeEquals ++ '=' :: (a.afterEquals ++ a.quote :: inside)),
            .duplicateAttribute (.ofList name) (.ofList a.name)⟩
        else readTagRest source name ({ a with value := value } :: read) left := by
  have hread := readAttribute_opening (.ofList name) ha inside
  have htext : a.opening ++ inside =
      a.gap ++ (a.name ++ (a.beforeEquals ++ '=' :: (a.afterEquals ++ a.quote :: inside))) := by
    simp [WrittenAttribute.opening]
  obtain ⟨c, more, hname, hc, -⟩ := ha.name
  have hcons (rest : List Char) : a.name ++ rest = c :: (more ++ rest) := by rw [hname, List.cons_append]
  rw [hcons] at htext hread ⊢
  obtain ⟨hgap, hend⟩ := span_spaces ha.gap
    (c :: (more ++ (a.beforeEquals ++ '=' :: (a.afterEquals ++ a.quote :: inside))))
    (by simpa using not_isSpace_of_isNameStart hc)
  rw [htext, readTagRest_of_isNameStart hend hc (by simpa only [hgap, List.isEmpty_iff] using ha.gap_ne_nil), hgap,
    hread]
  cases readValue (.ofList name) (.ofList a.name) a.quote inside <;> rfl

theorem readTagRest_attribute (source name : List Char) {read : List WrittenAttribute} {a : WrittenAttribute}
    (ha : a.Legal) (hnew : a.name ∉ read.map WrittenAttribute.name) (rest : List Char) :
    readTagRest source name read (a.text ++ rest) = readTagRest source name (a :: read) rest := by
  have hvalue : readValue (.ofList name) (.ofList a.name) a.quote (a.value ++ a.quote :: rest) = .ok (a.value, rest) :=
    readValue_eq_ok_iff.2 ⟨ha.quote, rfl, ha.value, ha.references⟩
  have hany : read.any (fun b => b.name == a.name) = false := by
    simp only [List.any_eq_false, beq_iff_eq]
    exact fun b hb he => hnew (List.mem_map.2 ⟨b, hb, he⟩)
  rw [a.text_append, readTagRest_opening source name read ha, hvalue]
  simp [hany]

/-- Attributes of different names are read one behind the other. -/
theorem readTagRest_attributes (source name : List Char) (read : List WrittenAttribute)
    {attributes : List WrittenAttribute} (ha : ∀ a ∈ attributes, a.Legal)
    (hn : ((read.reverse ++ attributes).map WrittenAttribute.name).Nodup) (rest : List Char) :
    readTagRest source name read (attributes.flatMap WrittenAttribute.text ++ rest) =
      readTagRest source name (attributes.reverse ++ read) rest := by
  induction attributes generalizing read with
  | nil => rfl
  | cons a attributes ih =>
    have hnew : a.name ∉ read.map WrittenAttribute.name := by
      intro hm
      rw [List.map_append, List.nodup_append] at hn
      exact hn.2.2 a.name (by simpa using hm) a.name (by simp) rfl
    rw [List.flatMap_cons, List.append_assoc, readTagRest_attribute source name (ha a (by simp)) hnew,
      ih (a :: read) (fun b hb => ha b (by simp [hb])) (by simpa using hn)]
    simp

theorem readTagRest_of_legal (source name : List Char) {attributes : List WrittenAttribute} {gap : List Char}
    (ha : ∀ a ∈ attributes, a.Legal) (hn : (attributes.map WrittenAttribute.name).Nodup)
    (hg : IsSpaces gap) (selfClosing : Bool) (rest : List Char) :
    readTagRest source name [] (attributes.flatMap WrittenAttribute.text ++ (gap ++ (tagEnd selfClosing ++ rest))) =
      .ok (.tag name attributes gap selfClosing, rest) := by
  rw [readTagRest_attributes source name [] ha hn, readTagRest_end source name _ hg]
  simp

theorem legal_tag_reverse {name gap : List Char} {read : List WrittenAttribute} {selfClosing : Bool}
    (hname : IsName name) (hread : ∀ a ∈ read, a.Legal) (hn : (read.map WrittenAttribute.name).Nodup)
    (hg : IsSpaces gap) : (Lexeme.tag name read.reverse gap selfClosing).Legal := by
  refine .tag hname (fun a ha => hread a (List.mem_reverse.1 ha)) ?_ hg
  rw [List.map_reverse]
  exact (List.reverse_perm _).nodup_iff.2 hn

theorem legal_of_readTagRest {source name text rest : List Char} {read : List WrittenAttribute} {l : Lexeme}
    (hname : IsName name) (hread : ∀ a ∈ read, a.Legal) (hn : (read.map WrittenAttribute.name).Nodup)
    (h : readTagRest source name read text = .ok (l, rest)) : l.Legal := by
  fun_induction readTagRest source name read text with
  | case2 read text =>
    obtain ⟨rfl, -⟩ : _ = l ∧ _ := by simpa using h
    exact legal_tag_reverse hname hread hn (isSpaces_takeWhile text)
  | case3 read text =>
    obtain ⟨rfl, -⟩ : _ = l ∧ _ := by simpa using h
    exact legal_tag_reverse hname hread hn (isSpaces_takeWhile text)
  | case8 read text tag gap c rest hText _ _ hc hgap a left hRead hany ih =>
    -- Looking for the name among those read is what keeps the names distinct.
    have ha : a.Legal := legal_of_readAttribute (mt List.isEmpty_iff.2 hgap) (isSpaces_takeWhile text) hc hRead
    have hnew : a.name ∉ read.map WrittenAttribute.name := by
      intro hm
      obtain ⟨b, hb, he⟩ := List.mem_map.1 hm
      exact hany (List.any_eq_true.2 ⟨b, hb, by simpa using he⟩)
    refine ih ?_ ?_ h
    · intro b hb
      rcases List.mem_cons.1 hb with rfl | hb
      · exact ha
      · exact hread b hb
    · exact List.nodup_cons.2 ⟨hnew, hn⟩
  | _ => cases h

theorem legal_of_readTag {source text rest : List Char} {l : Lexeme} (h : readTag source text = .ok (l, rest)) :
    l.Legal := by
  unfold readTag at h
  split at h
  next => cases h
  next hcheck =>
    obtain ⟨c, text, rfl, hc⟩ := checkName_eq_ok_iff.1 hcheck
    exact legal_of_readTagRest (isName_takeWhile hc) (by simp) (by simp) h

theorem WrittenAttribute.Legal.head_opening {a : WrittenAttribute} (ha : a.Legal) (rest : List Char) :
    ∀ c ∈ (a.opening ++ rest).head?, isNameChar c = false := by
  obtain ⟨s, gap, hgap⟩ := List.exists_cons_of_ne_nil ha.gap_ne_nil
  have hs := not_isNameChar_of_isSpace (ha.gap s (by simp [hgap]))
  simpa [opening, hgap] using hs

/-- Attributes go on with no name that stands before them. -/
theorem head_attributes {attributes : List WrittenAttribute} {rest : List Char} (ha : ∀ a ∈ attributes, a.Legal)
    (hr : ∀ c ∈ rest.head?, isNameChar c = false) :
    ∀ c ∈ (attributes.flatMap WrittenAttribute.text ++ rest).head?, isNameChar c = false := by
  cases attributes with
  | nil => exact hr
  | cons a attributes =>
    rw [List.flatMap_cons, List.append_assoc, a.text_append]
    exact (ha a List.mem_cons_self).head_opening _

/-- Behind the name of a tag its attributes are read. -/
theorem readTag_of_name (source : List Char) {name rest : List Char} (hn : IsName name)
    (hr : ∀ c ∈ rest.head?, isNameChar c = false) :
    readTag source (name ++ rest) = readTagRest source name [] rest := by
  obtain ⟨hread, hafter⟩ := span_name hn rest hr
  have hcheck : checkName .start (name ++ rest) = .ok () := by
    obtain ⟨c, more, rfl, hc, -⟩ := hn
    exact checkName_eq_ok_iff.2 ⟨c, _, rfl, hc⟩
  simp only [readTag, hcheck, hread, hafter]

theorem readTag_of_legal (source : List Char) {name gap : List Char} {attributes : List WrittenAttribute} {selfClosing : Bool}
    (hl : (Lexeme.tag name attributes gap selfClosing).Legal) (rest : List Char) :
    readTag source (name ++ (attributes.flatMap WrittenAttribute.text ++ (gap ++ (tagEnd selfClosing ++ rest)))) =
      .ok (.tag name attributes gap selfClosing, rest) := by
  cases hl with
  | tag hname ha hn hg =>
    have hend : ∀ c ∈ (gap ++ (tagEnd selfClosing ++ rest)).head?, isNameChar c = false :=
      not_isNameChar_head hg (by cases selfClosing <;> simp [tagEnd] <;> decide)
    rw [readTag_of_name source hname (head_attributes ha hend)]
    exact readTagRest_of_legal source name ha hn hg selfClosing rest

end TagLint
