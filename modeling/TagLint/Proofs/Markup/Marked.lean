import TagLint.Proofs.Markup.Grammar
/-!
# Comments, sections, instructions and declarations are read exactly

Each of these readers succeeds on the texts that go on with a body of its kind and the mark that ends it,
and on no others.
-/

namespace TagLint

/-! ## Comments, sections and instructions -/

/-- Before a pair of hyphens that stands first, there is none, and no hyphen right before it. -/
theorem endsAtFirst_hyphens_iff {body : List Char} :
    EndsAtFirst ['-', '-'] body ↔ ¬ ['-', '-'] <:+: body ∧ body.getLast? ≠ some '-' := by
  induction body with
  | nil => simp [endsAtFirst_nil]
  | cons c body ih =>
    rw [endsAtFirst_cons, ih]
    cases body with
    | nil =>
      have hfirst : (∀ after, [c] ++ ['-', '-'] ≠ ['-', '-'] ++ after) ↔ c ≠ '-' :=
        ⟨fun h hc => h ['-'] (by simp [hc]), fun h after ha => h (List.cons.inj ha).1⟩
      rw [hfirst]
      simp [List.infix_cons_iff]
    | cons d body =>
      have hfirst : (∀ after, c :: d :: body ++ ['-', '-'] ≠ ['-', '-'] ++ after) ↔ ¬ (c = '-' ∧ d = '-') := by
        refine ⟨fun h hc => h (body ++ ['-', '-']) (by simp [hc]), fun h after ha => h ?_⟩
        exact ⟨(List.cons.inj ha).1, (List.cons.inj (List.cons.inj ha).2).1⟩
      have hin : ['-', '-'] <:+: c :: d :: body ↔ (c = '-' ∧ d = '-') ∨ ['-', '-'] <:+: d :: body := by
        rw [List.infix_cons_iff, List.cons_prefix_cons, List.cons_prefix_cons]
        simp [eq_comm]
      rw [hfirst, hin, List.getLast?_cons_cons, not_or, and_assoc]

theorem readComment_eq_ok_iff {source text rest : List Char} {l : Lexeme} :
    readComment source text = .ok (l, rest) ↔
      ∃ body, l = .comment body ∧ text = body ++ ['-', '-', '>'] ++ rest ∧ EndsAtFirst ['-', '-'] body := by
  have hsplit (body r : List Char) : splitAt? ['-', '-'] text = some (body, r) ↔
      text = body ++ ['-', '-'] ++ r ∧ EndsAtFirst ['-', '-'] body := splitAt?_eq_some_iff (by simp)
  unfold readComment
  constructor
  · intro h
    split at h
    next => cases h
    next body r hr =>
      obtain ⟨rfl, rfl⟩ : Lexeme.comment body = l ∧ r = rest := by simpa using h
      obtain ⟨ht, hf⟩ := (hsplit _ _).1 hr
      exact ⟨body, rfl, by simpa using ht, hf⟩
    next => cases h
  · rintro ⟨body, rfl, ht, hf⟩
    simp only [(hsplit body ('>' :: rest)).2 ⟨by simpa using ht, hf⟩]

theorem readCData_eq_ok_iff {source text rest : List Char} {l : Lexeme} :
    readCData source text = .ok (l, rest) ↔
      ∃ body, l = .cdata body ∧ text = body ++ Lexeme.cdataEnd ++ rest ∧ EndsAtFirst Lexeme.cdataEnd body := by
  have hsplit (body r : List Char) : splitAt? Lexeme.cdataEnd text = some (body, r) ↔
      text = body ++ Lexeme.cdataEnd ++ r ∧ EndsAtFirst Lexeme.cdataEnd body :=
    splitAt?_eq_some_iff (by simp [Lexeme.cdataEnd])
  unfold readCData
  constructor
  · intro h
    split at h
    next => cases h
    next body r hr =>
      obtain ⟨rfl, rfl⟩ : Lexeme.cdata body = l ∧ r = rest := by simpa using h
      exact ⟨body, rfl, (hsplit _ _).1 hr⟩
  · rintro ⟨body, rfl, h⟩
    rw [(hsplit body rest).2 h]

theorem readInstruction_eq_ok_iff {source text rest : List Char} {l : Lexeme} :
    readInstruction source text = .ok (l, rest) ↔
      ∃ body, l = .instruction body ∧ text = body ++ ['?', '>'] ++ rest ∧ EndsAtFirst ['?', '>'] body := by
  have hsplit (body r : List Char) : splitAt? ['?', '>'] text = some (body, r) ↔
      text = body ++ ['?', '>'] ++ r ∧ EndsAtFirst ['?', '>'] body := splitAt?_eq_some_iff (by simp)
  unfold readInstruction
  constructor
  · intro h
    split at h
    next => cases h
    next body r hr =>
      obtain ⟨rfl, rfl⟩ : Lexeme.instruction body = l ∧ r = rest := by simpa using h
      exact ⟨body, rfl, (hsplit _ _).1 hr⟩
  · rintro ⟨body, rfl, h⟩
    rw [(hsplit body rest).2 h]

/-! ## Declarations -/

/-- Inside quotes everything up to the same quote is passed over. -/
theorem splitDeclaration?_literal {quote : Char} {depth : Nat} {literal : List Char} (hq : quote ∉ literal)
    (read rest : List Char) :
    splitDeclaration? ⟨some quote, depth⟩ read (literal ++ quote :: rest) =
      splitDeclaration? ⟨none, depth⟩ (quote :: literal.reverse ++ read) rest := by
  induction literal generalizing read with
  | nil => simp [splitDeclaration?, DeclarationState.outside, DeclarationState.step]
  | cons c literal ih =>
    simp only [List.mem_cons, not_or] at hq
    simp [splitDeclaration?, DeclarationState.outside, DeclarationState.step, Ne.symm hq.1, ih hq.2]

theorem splitDeclaration?_unclosed {quote : Char} {depth : Nat} {text : List Char} (hq : quote ∉ text)
    (read : List Char) : splitDeclaration? ⟨some quote, depth⟩ read text = none := by
  induction text generalizing read with
  | nil => rfl
  | cons c text ih =>
    simp only [List.mem_cons, not_or] at hq
    simp [splitDeclaration?, DeclarationState.outside, DeclarationState.step, Ne.symm hq.1, ih hq.2]

theorem splitDeclaration?_of_body {depth : Nat} {body : List Char} (h : DeclarationBody depth body)
    (read rest : List Char) :
    splitDeclaration? ⟨none, depth⟩ read (body ++ '>' :: rest) = some (read.reverse ++ body, rest) := by
  induction h generalizing read with
  | ended => simp [splitDeclaration?, DeclarationState.outside]
  | @quoted depth quote literal body hquote hq _ ih =>
    have hne : quote ≠ '>' := by rcases hquote with rfl | rfl <;> decide
    simp only [List.cons_append, List.append_assoc, splitDeclaration?, hne, false_and, if_false]
    rw [DeclarationState.step]
    simp only [if_pos hquote]
    rw [splitDeclaration?_literal hq, ih]
    simp
  | opening _ ih => simp [splitDeclaration?, DeclarationState.step, ih]
  | closing _ ih => simp [splitDeclaration?, DeclarationState.step, ih]
  | @other depth c body hc hgt _ ih =>
    simp only [List.mem_cons, List.not_mem_nil, or_false, not_or] at hc
    have hnot : ¬ (c = '>' ∧ DeclarationState.outside ⟨none, depth⟩) := by
      rintro ⟨rfl, ho⟩
      exact hgt rfl (by simpa [DeclarationState.outside] using ho)
    simp [splitDeclaration?, hnot, DeclarationState.step, hc, ih]

theorem body_of_splitDeclaration? {depth : Nat} {read text body rest : List Char}
    (h : splitDeclaration? ⟨none, depth⟩ read text = some (body, rest)) :
    ∃ tail, body = read.reverse ++ tail ∧ text = tail ++ '>' :: rest ∧ DeclarationBody depth tail := by
  -- a literal is passed over as a whole, so the induction is on the length of what is left
  induction hn : text.length using Nat.strongRecOn generalizing depth read text with
  | ind n ih =>
    cases text with
    | nil => cases h
    | cons c text =>
      subst hn
      simp only [splitDeclaration?] at h
      split at h
      next hend =>
        obtain ⟨rfl, ho⟩ := hend
        obtain ⟨rfl, rfl⟩ : read.reverse = body ∧ text = rest := by simpa using h
        obtain rfl : depth = 0 := by simpa [DeclarationState.outside] using ho
        exact ⟨[], by simp, rfl, .ended⟩
      next hnot =>
        simp only [DeclarationState.step] at h
        split at h
        next hquote =>
          by_cases hm : c ∈ text
          · obtain ⟨literal, more, rfl, hq⟩ := List.eq_append_cons_of_mem hm
            rw [splitDeclaration?_literal hq] at h
            obtain ⟨tail, rfl, rfl, htail⟩ := ih _ (by simp; omega) h rfl
            exact ⟨c :: literal ++ c :: tail, by simp, by simp, .quoted hquote hq htail⟩
          · rw [splitDeclaration?_unclosed hm] at h
            cases h
        next hquote =>
          simp only [not_or] at hquote
          split at h
          next hopen =>
            obtain ⟨tail, rfl, rfl, htail⟩ := ih _ (by simp) h rfl
            exact ⟨c :: tail, by simp, by simp, hopen ▸ .opening htail⟩
          next hopen =>
            split at h
            next hclose =>
              obtain ⟨tail, rfl, rfl, htail⟩ := ih _ (by simp) h rfl
              exact ⟨c :: tail, by simp, by simp, hclose ▸ .closing htail⟩
            next hclose =>
              obtain ⟨tail, rfl, rfl, htail⟩ := ih _ (by simp) h rfl
              refine ⟨c :: tail, by simp, by simp, .other (by simp [hquote, hopen, hclose]) (fun hgt hd => ?_) htail⟩
              exact hnot ⟨hgt, by simp [DeclarationState.outside, hd]⟩

theorem readDeclaration_eq_ok_iff {source text rest : List Char} {l : Lexeme} :
    readDeclaration source text = .ok (l, rest) ↔
      ∃ c body, l = .declaration (c :: body) ∧ text = c :: body ++ '>' :: rest ∧ c.isAlpha ∧
        DeclarationBody 0 (c :: body) := by
  constructor
  · intro h
    unfold readDeclaration at h
    split at h
    next => cases h
    next c text =>
      split at h
      next hc =>
        split at h
        next => cases h
        next body r hr =>
          obtain ⟨rfl, rfl⟩ : Lexeme.declaration body = l ∧ r = rest := by simpa using h
          obtain ⟨tail, htail, ht, hbody⟩ := body_of_splitDeclaration? hr
          obtain rfl : body = tail := by simpa using htail
          cases body with
          | nil =>
            obtain rfl : c = '>' := (List.cons.inj ht).1
            exact absurd hc (by decide)
          | cons d body =>
            obtain rfl : c = d := (List.cons.inj ht).1
            exact ⟨c, body, rfl, ht, hc, hbody⟩
      next => cases h
  · rintro ⟨c, body, rfl, rfl, hc, hbody⟩
    have hsplit := splitDeclaration?_of_body hbody [] rest
    simp only [List.reverse_nil, List.nil_append] at hsplit
    simp only [List.cons_append] at hsplit ⊢
    simp [readDeclaration, hc, DeclarationState.start, hsplit]

end TagLint
