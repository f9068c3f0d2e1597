import Mathlib.Data.List.Induction
import TagLint.Proofs.Markup.Positions
import TagLint.Proofs.Rules.RootOnly
/-!
# Findings come in the order of the text

The items of a token stream stand one behind the other (`increasing_tokenize`), and what is reported about them keeps
their order. Unclosed tags are reported at the end of the scan, but nothing is reported behind the outermost of them
before: what follows it stands inside it (`exists_outermost`). So each finding stands before the next, with two
exceptions that the main statement names (`checkWellFormed_inDocumentOrder`).
-/

namespace TagLint

/-! ## Items of a stream -/

/-- Where an item of a token stream stands. -/
def TokenItem.position : TokenItem → Position
  | .ok t => t.position
  | .error e => e.position

/-- Places that stand one behind the other in a text. -/
def Increasing (places : List Position) : Prop := places.Pairwise fun p q => p.offset < q.offset

namespace Lexeme

/-- The token of a tile stands in front of what the tiles end with. -/
theorem Tiles.offset_lt {source rest : List Char} {lexemes : List Lexeme} (h : Tiles source lexemes rest)
    (front : List Char) {t : Token} (ht : t ∈ tokens (.behind front) lexemes) :
    byteSize front ≤ t.position.offset ∧ t.position.offset < byteSize (front ++ lexemes.flatMap text) := by
  obtain ⟨xs, l, ys, rfl, rfl⟩ := mem_tokens ht
  obtain ⟨mid, -, hmid⟩ := h.split
  cases hmid with
  | cons hl _ _ =>
    have hpos := byteSize_pos (text_ne_nil hl)
    show byteSize front ≤ byteSize (front ++ xs.flatMap text) ∧
      byteSize (front ++ xs.flatMap text) < byteSize (front ++ (xs ++ l :: ys).flatMap text)
    simp only [List.flatMap_append, List.flatMap_cons, byteSize_append]
    omega

theorem Tiles.increasing_tokens {source rest : List Char} {lexemes : List Lexeme} (h : Tiles source lexemes rest)
    (front : List Char) : Increasing ((tokens (.behind front) lexemes).map Token.position) := by
  induction h generalizing front with
  | nil => exact .nil
  | @cons l lexemes text rest hl hr htiles ih =>
    rw [tokens, Cursor.readAll_behind]
    refine List.pairwise_cons.2 ⟨fun p hp => ?_, ih _⟩
    obtain ⟨u, hu, rfl⟩ := List.mem_map.1 hp
    have hpos := byteSize_pos (text_ne_nil hl)
    have hle := (htiles.offset_lt _ hu).1
    rw [byteSize_append] at hle
    show byteSize front < u.position.offset
    omega

end Lexeme

/-- Each item of a text stands before the next one. -/
theorem increasing_tokenize (src : String) : Increasing ((tokenize src).map TokenItem.position) := by
  rcases Lexeme.tiles_cases src.toList with ⟨lexemes, h⟩ | ⟨lexemes, rest, fault, h, hf, -⟩
  · rw [tokenize, Lexeme.tokenizeFrom_of_tiles h, List.map_map]
    exact h.increasing_tokens []
  · rw [tokenize, Lexeme.tokenizeFrom_of_fault h hf, List.map_append, List.map_map]
    refine List.pairwise_append.2 ⟨h.increasing_tokens [], List.pairwise_singleton _ _, fun p hp q hq => ?_⟩
    obtain ⟨t, ht, rfl⟩ := List.mem_map.1 hp
    obtain rfl := List.mem_singleton.1 hq
    obtain ⟨passed, -, hsplits⟩ := h.fault_splits hf
    have hlt := (h.offset_lt [] ht).2
    rw [List.nil_append] at hlt
    show t.position.offset < (fault.error _ rest).position.offset
    rw [Cursor.readAll_start, hsplits.counted]
    show _ < byteSize (_ ++ passed)
    rw [byteSize_append]
    omega

/-! ## What is reported on the way -/

theorem EndsScan.position_eq {before : List Token} {item : TokenItem} {fault : NestingFault}
    (h : EndsScan before item fault) : fault.position = TokenItem.position item ∧ fault ≠ .noRoot := by
  cases h with
  | syntaxError => exact ⟨rfl, nofun⟩
  | mismatchedClose => exact ⟨rfl, nofun⟩

/-- The items of a stream are the tokens taken, and then the one that ended the scan. -/
theorem Scan.items_eq {before tokens : List Token} {items rest : List TokenItem} {stop? : Option NestingFault}
    (h : Scan before items tokens stop? rest) :
    stop? = none ∧ items = tokens.map .ok ∨
      ∃ item fault, stop? = some fault ∧ EndsScan (before ++ tokens) item fault ∧
        items = tokens.map .ok ++ item :: rest := by
  induction h with
  | exhausted => exact .inl ⟨rfl, rfl⟩
  | stopped hf => exact .inr ⟨_, _, rfl, by simpa using hf, rfl⟩
  | taken _ _ ih =>
    rcases ih with ⟨rfl, rfl⟩ | ⟨item, fault, rfl, hf, rfl⟩
    · exact .inl ⟨rfl, rfl⟩
    · exact .inr ⟨item, fault, rfl, by simpa using hf, rfl⟩

theorem recoveredFault?_position {before : List Token} {t : Token} {fault : NestingFault}
    (h : recoveredFault? before t = some fault) : fault.position = t.position ∧ fault ≠ .noRoot := by
  obtain ⟨kind, position⟩ := t
  unfold recoveredFault? at h
  split at h
  next =>
    cases kind with
    | comment | declaration => cases h
    | text content cdata =>
      simp only at h
      split at h
      next => cases h
      next =>
        obtain rfl := Option.some.inj h
        exact ⟨rfl, nofun⟩
    | closeTag name =>
      obtain rfl := Option.some.inj h
      exact ⟨rfl, nofun⟩
    | openTag name attributes | selfClosingTag name attributes =>
      obtain ⟨root, -, rfl⟩ := Option.map_eq_some_iff.1 h
      exact ⟨rfl, nofun⟩
  next => cases h

/-- What is reported on the way stands at tokens, each at another one and in their order. -/
theorem recoveredFrom_sublist (before tokens : List Token) :
    ((recoveredFrom before tokens).map NestingFault.position).Sublist (tokens.map Token.position) := by
  induction tokens generalizing before with
  | nil => exact .slnil
  | cons t tokens ih =>
    rw [recoveredFrom]
    cases h : recoveredFault? before t with
    | none => exact (ih _).cons _
    | some fault =>
      rw [Option.toList_some, List.singleton_append, List.map_cons, (recoveredFault?_position h).1]
      exact (ih _).cons_cons _

theorem noRoot_notMem_recoveredFrom (before tokens : List Token) : .noRoot ∉ recoveredFrom before tokens := by
  induction tokens generalizing before with
  | nil => exact List.not_mem_nil
  | cons t tokens ih =>
    rw [recoveredFrom, List.mem_append, not_or]
    exact ⟨fun h => (recoveredFault?_position (Option.mem_toList.1 h)).2 rfl, ih _⟩

/-! ## What is reported at the end -/

/-- The open tag that a token is, if it is one. -/
def Token.opens? (t : Token) : Option OpenTag :=
  match t.kind with
  | .openTag name attributes => some ⟨name, attributes, t.position⟩
  | _ => none

/-- What is open was opened, the innermost last. -/
theorem openTags_sublist (tokens : List Token) :
    (openTags tokens).Sublist (tokens.filterMap Token.opens?).reverse := by
  induction tokens using List.reverseRecOn with
  | nil => exact .slnil
  | append_singleton tokens t ih =>
    rw [openTags_concat, List.filterMap_append, List.reverse_append]
    obtain ⟨kind, position⟩ := t
    cases kind with
    | openTag name attributes => exact ih.cons_cons _
    | closeTag name => exact (List.tail_sublist _).trans ih
    | _ => exact ih

/-- Behind the outermost open tag nothing is reported on the way, for something is open there. -/
theorem exists_outermost {tokens : List Token} (h : openTags tokens ≠ []) :
    ∃ before name attributes position after inner,
      tokens = before ++ ⟨.openTag name attributes, position⟩ :: after ∧
        openTags tokens = inner ++ [⟨name, attributes, position⟩] ∧
        recovered tokens = recovered before ++
          ((firstName? before).map fun first => .secondRoot name first position).toList := by
  induction tokens using List.reverseRecOn with
  | nil => exact absurd rfl h
  | append_singleton tokens t ih =>
    rw [openTags_concat] at h ⊢
    rw [recovered_concat]
    by_cases hopen : openTags tokens = []
    · -- The first tag that is open is this one.
      obtain ⟨kind, position⟩ := t
      rw [hopen] at h ⊢
      cases kind with
      | openTag name attributes =>
        exact ⟨tokens, name, attributes, position, [], [], rfl, rfl, by simp [recoveredFault?, hopen]⟩
      | _ => exact absurd rfl h
    · obtain ⟨before, name, attributes, position, after, inner, rfl, hinner, hrecovered⟩ := ih hopen
      rw [hinner] at h ⊢
      have hnone : recoveredFault? (before ++ ⟨.openTag name attributes, position⟩ :: after) t = none := by
        rw [recoveredFault?, if_neg hopen]
      refine ⟨before, name, attributes, position, after ++ [t], ?_⟩
      rw [hnone, hrecovered]
      obtain ⟨kind, place⟩ := t
      cases kind with
      | openTag name' attributes' => exact ⟨_ :: inner, by simp, rfl, by simp⟩
      | closeTag name' =>
        cases inner with
        | nil => exact absurd rfl h
        | cons e inner => exact ⟨inner, by simp, rfl, by simp⟩
      | _ => exact ⟨inner, by simp, rfl, by simp⟩

/-! ## Faults in order -/

/-- Faults in the order of the text: each stands before the next. Only a second root that is not closed is reported
twice, one time right behind the other, and that there is no root is reported last, at the start of the text. -/
def NestingFault.InDocumentOrder (faults : List NestingFault) : Prop :=
  ∃ placed, .noRoot ∉ placed ∧ (faults = placed ∨ faults = placed ++ [.noRoot] ∧ noRoot.position.offset = 0) ∧
    (Increasing (placed.map position) ∨ ∃ before name first place after,
      placed = before ++ .secondRoot name first place :: .unclosed name place :: after ∧
        Increasing ((before ++ .unclosed name place :: after).map position))

section

variable {tokens : List Token}

theorem increasing_recovered (h : Increasing (tokens.map Token.position)) :
    Increasing ((recovered tokens).map NestingFault.position) :=
  h.sublist (recoveredFrom_sublist [] tokens)

theorem Token.position_of_opens? {t : Token} {e : OpenTag} (h : t.opens? = some e) : e.position = t.position := by
  obtain ⟨kind, position⟩ := t
  cases kind with
  | openTag => obtain rfl := Option.some.inj h; rfl
  | _ => cases h

/-- Open tags stand in their order, the outermost first. -/
theorem increasing_openTags (h : Increasing (tokens.map Token.position)) :
    Increasing ((openTags tokens).reverse.map OpenTag.position) := by
  have hopens : Increasing ((tokens.filterMap Token.opens?).map OpenTag.position) := by
    refine List.pairwise_map.2 (List.pairwise_filterMap.2 ((List.pairwise_map.1 h).imp fun {t u} htu e he f hf => ?_))
    rwa [Token.position_of_opens? he, Token.position_of_opens? hf]
  have hsub := (openTags_sublist tokens).reverse
  rw [List.reverse_reverse] at hsub
  exact hopens.sublist (hsub.map _)

/-- What is wrong with tokens to the end of a stream is reported in order. -/
theorem recovered_append_finalFaults_inDocumentOrder (h : Increasing (tokens.map Token.position)) :
    NestingFault.InDocumentOrder (recovered tokens ++ finalFaults tokens) := by
  have hnoRoot : .noRoot ∉ recovered tokens := noRoot_notMem_recoveredFrom [] tokens
  by_cases hopen : openTags tokens = []
  · refine ⟨recovered tokens, hnoRoot, ?_, .inl (increasing_recovered h)⟩
    by_cases hfirst : firstName? tokens = none
    · exact .inr ⟨by simp [finalFaults, hopen, hfirst], rfl⟩
    · exact .inl (by simp [finalFaults, hopen, hfirst])
  · have hfirst : firstName? tokens ≠ none := fun hn => hopen (openTags_of_firstName?_eq_none hn)
    have hfinal : finalFaults tokens = (openTags tokens).reverse.map fun e => .unclosed e.name e.position := by
      simp [finalFaults, hfirst]
    have hinside := increasing_openTags h
    obtain ⟨before, name, attributes, place, after, inner, rfl, hinner, hsplit⟩ := exists_outermost hopen
    rw [hinner, List.reverse_append, List.reverse_singleton, List.singleton_append] at hinside hfinal
    -- The unclosed tags, the outermost first, stand behind all that was reported before the outermost.
    rw [List.map_append] at h
    obtain ⟨hbefore, -, hfront⟩ := List.pairwise_append.1 h
    have hplaces : Increasing ((recovered before ++ NestingFault.unclosed name place ::
        inner.reverse.map fun e => .unclosed e.name e.position).map NestingFault.position) := by
      rw [List.map_append, List.map_cons, List.map_map]
      refine List.pairwise_append.2 ⟨increasing_recovered hbefore, hinside, fun p hp q hq => ?_⟩
      have hout := hfront p ((recoveredFrom_sublist [] before).subset hp) place List.mem_cons_self
      rcases List.mem_cons.1 hq with rfl | hq
      · exact hout
      · exact Nat.lt_trans hout ((List.pairwise_cons.1 hinside).1 q hq)
    refine ⟨_, ?_, .inl rfl, ?_⟩
    · rw [hfinal, List.mem_append, not_or]
      exact ⟨hnoRoot, by simp⟩
    · rw [hsplit, hfinal]
      cases hname : firstName? before with
      | none => exact .inl (by simpa using hplaces)
      | some first => exact .inr ⟨_, name, first, place, _, List.append_assoc _ _ _, hplaces⟩

theorem streamFaults_inDocumentOrder {items rest : List TokenItem} {stop? : Option NestingFault}
    (hs : Scan [] items tokens stop? rest) (h : Increasing (items.map TokenItem.position)) :
    NestingFault.InDocumentOrder (streamFaults tokens stop?) := by
  rcases hs.items_eq with ⟨rfl, rfl⟩ | ⟨item, fault, rfl, hf, rfl⟩
  · rw [List.map_map] at h
    exact recovered_append_finalFaults_inDocumentOrder h
  · rw [List.map_append, List.map_map] at h
    obtain ⟨htokens, -, hitem⟩ := List.pairwise_append.1 h
    obtain ⟨hposition, hne⟩ := hf.position_eq
    refine ⟨recovered tokens ++ [fault], ?_, .inl rfl, .inl ?_⟩
    · rw [List.mem_append, List.mem_singleton, not_or]
      exact ⟨noRoot_notMem_recoveredFrom [] tokens, hne.symm⟩
    · rw [List.map_append]
      refine List.pairwise_append.2 ⟨increasing_recovered htokens, List.pairwise_singleton _ _, fun p hp q hq => ?_⟩
      obtain rfl := List.mem_singleton.1 hq
      rw [hposition]
      exact hitem p ((recoveredFrom_sublist [] tokens).subset hp) _ List.mem_cons_self

end

/-! ## Findings of rules in order -/

/-- Elements begin at tokens, each at another one and in their order. -/
theorem occurrencesFrom_sublist (before tokens : List Token) :
    ((occurrencesFrom before tokens).map Occurrence.position).Sublist (tokens.map Token.position) := by
  induction tokens generalizing before with
  | nil => exact .slnil
  | cons t tokens ih =>
    rw [occurrencesFrom]
    cases t.begins? with
    | none => exact (ih _).cons _
    | some name => exact (ih _).cons_cons _

theorem rootOnly_increasing {source : String} {root : Element} (h : checkWellFormed (tokenize source) = .ok root)
    (name : String) : ∃ places, ((RootOnly.rule name).check root).diagnostics.map Diagnostic.position = places.map some ∧
      Increasing places := by
  obtain ⟨tokens, htokens, -, hwritten⟩ := linearises_of_checkWellFormed h
  have horder := increasing_tokenize source
  rw [htokens, List.map_map] at horder
  have hall : Increasing ((occurrences tokens).map Occurrence.position) :=
    horder.sublist (occurrencesFrom_sublist [] tokens)
  rw [RootOnly.check_eq hwritten name]
  refine ⟨((occurrences tokens).tail.filter fun o => o.name = name).map Occurrence.position, ?_,
    hall.sublist ((List.filter_sublist.trans (List.tail_sublist _)).map _)⟩
  rw [List.map_map, List.map_map]
  rfl

/-! ## Main theorem -/

/-- The findings on a refused text come in the order of the text, as do those of each root-only rule on an accepted
one. -/
theorem checkWellFormed_inDocumentOrder (source : String) :
    (∀ ds, checkWellFormed (tokenize source) = .error ds →
      ∃ faults : List NestingFault, ds = faults.map NestingFault.diagnostic ∧
        ds.map Diagnostic.position = faults.map (fun f => some f.position) ∧ NestingFault.InDocumentOrder faults) ∧
    ∀ root, checkWellFormed (tokenize source) = .ok root → ∀ name, ∃ places,
      ((RootOnly.rule name).check root).diagnostics.map Diagnostic.position = places.map some ∧ Increasing places := by
  refine ⟨fun ds hds => ?_, fun root h name => rootOnly_increasing h name⟩
  obtain ⟨tokens, stop?, rest, hs, -, rfl⟩ := streamFaults_of_checkWellFormed hds
  exact ⟨_, rfl, List.map_map, streamFaults_inDocumentOrder hs (increasing_tokenize source)⟩

end TagLint
