import TagLint.Proofs.Markup.Concatenation
/-!
# Document types

The declaration of a document type may hold an internal subset in brackets, and the subset comments and instructions
in which any character may stand. Where such a declaration ends is found by its quotes and brackets alone, and those
in comments and instructions are counted with the others. So it is taken whole exactly if they come out even, as they
do when they pair up inside each comment and instruction (`tokenize_doctype`). An apostrophe alone in a comment hides
the end of the declaration, and all that follows with it (`tokenize_doctype_apostrophe`).
-/

namespace TagLint

/-! ## The grammar -/

/-- A part of a declaration: one character that is no delimiter, or a literal in its quotes. -/
inductive DeclarationPart where
  | plain (c : Char)
  | literal (quote : Char) (content : List Char)

namespace DeclarationPart

def text : DeclarationPart → List Char
  | .plain c => [c]
  | .literal quote content => quote :: content ++ [quote]

inductive Legal : DeclarationPart → Prop
  | plain {c : Char} : c ∉ ['"', '\'', '[', ']', '<', '>'] → Legal (.plain c)
  | literal {quote : Char} {content : List Char} :
    quote = '"' ∨ quote = '\'' → quote ∉ content → Legal (.literal quote content)

end DeclarationPart

/-- What an internal subset holds. -/
inductive SubsetItem where
  | space (c : Char)
  | reference (name : List Char)
  | declaration (keyword : List Char) (parts : List DeclarationPart)
  | instruction (body : List Char)
  | comment (body : List Char)

namespace SubsetItem

/-- The keywords of the declarations in an internal subset. -/
def keywords : List (List Char) :=
  [['E', 'N', 'T', 'I', 'T', 'Y'], ['E', 'L', 'E', 'M', 'E', 'N', 'T'], ['A', 'T', 'T', 'L', 'I', 'S', 'T'],
    ['N', 'O', 'T', 'A', 'T', 'I', 'O', 'N']]

def text : SubsetItem → List Char
  | .space c => [c]
  | .reference name => '%' :: name ++ [';']
  | .declaration keyword parts => (Lexeme.declaration (keyword ++ parts.flatMap DeclarationPart.text)).text
  | .instruction body => (Lexeme.instruction body).text
  | .comment body => (Lexeme.comment body).text

/-- Whether any characters may stand in an item. -/
def isOpaque : SubsetItem → Bool
  | .instruction _ | .comment _ => true
  | .space _ | .reference _ | .declaration _ _ => false

/-- An item as it must be written. Instructions and comments hold anything but the mark that ends them. -/
inductive Legal : SubsetItem → Prop
  | space {c : Char} : isSpace c → Legal (.space c)
  | reference {name : List Char} : IsName name → Legal (.reference name)
  | declaration {keyword : List Char} {parts : List DeclarationPart} :
    keyword ∈ keywords → (∀ p ∈ parts, p.Legal) → Legal (.declaration keyword parts)
  | instruction {body : List Char} : EndsAtFirst ['?', '>'] body → Legal (.instruction body)
  | comment {body : List Char} : EndsAtFirst ['-', '-', '>'] body → Legal (.comment body)

end SubsetItem

/-- The declaration of a document type with an internal subset. -/
structure Doctype where
  gap : List Char
  name : List Char
  /-- What stands between the name and the subset: space, and where the type is defined. -/
  parts : List DeclarationPart
  items : List SubsetItem
  trailing : List Char

namespace Doctype

def keyword : List Char := ['D', 'O', 'C', 'T', 'Y', 'P', 'E']

/-- What stands behind the bracket that opens the internal subset. -/
def subset (d : Doctype) : List Char := d.items.flatMap SubsetItem.text ++ ']' :: d.trailing

/-- The characters between the opening mark and the angle bracket at the end. -/
def body (d : Doctype) : List Char :=
  keyword ++ d.gap ++ d.name ++ d.parts.flatMap DeclarationPart.text ++ '[' :: d.subset

def text (d : Doctype) : List Char := (Lexeme.declaration d.body).text

/-- A document type as it must be written. -/
structure Legal (d : Doctype) : Prop where
  gap_ne_nil : d.gap ≠ []
  gap : IsSpaces d.gap
  name : IsName d.name
  parts : ∀ p ∈ d.parts, p.Legal
  items : ∀ item ∈ d.items, item.Legal
  trailing : IsSpaces d.trailing

/-- Wherever a document type stands behind a text that is read to its end, it is one declaration, and what follows is
read as if it began there. -/
def TakenWhole (d : Doctype) : Prop :=
  ∀ front rest : String, (∀ item ∈ tokenize front, ∃ token, item = .ok token) →
    tokenize (front ++ .ofList d.text ++ rest) =
      tokenize front ++ .ok ⟨.declaration (.ofList d.text), .behind front.toList⟩ ::
        (tokenize rest).map (TokenItem.shift (front.toList ++ d.text))

end Doctype

/-! ## What does not change where a declaration ends -/

/-- A text inside `depth` brackets that leaves the end of a declaration where it is. -/
def PassedOver (depth : Nat) (text : List Char) : Prop :=
  ∀ rest, DeclarationBody depth (text ++ rest) ↔ DeclarationBody depth rest

/-- Quotes and brackets pair up in a text, brackets outside quotes only. -/
inductive Paired : List Char → Prop
  | nil : Paired []
  | quoted {quote : Char} {literal rest : List Char} :
    quote = '"' ∨ quote = '\'' → quote ∉ literal → Paired rest → Paired (quote :: literal ++ quote :: rest)
  | bracketed {inner rest : List Char} : Paired inner → Paired rest → Paired ('[' :: inner ++ ']' :: rest)
  | other {c : Char} {rest : List Char} : c ∉ ['"', '\'', '[', ']'] → Paired rest → Paired (c :: rest)

section

variable {depth : Nat} {text : List Char}

theorem PassedOver.append {s t : List Char} (hs : PassedOver depth s) (ht : PassedOver depth t) :
    PassedOver depth (s ++ t) := by
  intro rest
  rw [List.append_assoc, hs, ht]

theorem PassedOver.flatMap {α : Type} {list : List α} {f : α → List Char} (h : ∀ a ∈ list, PassedOver depth (f a)) :
    PassedOver depth (list.flatMap f) := by
  induction list with
  | nil => exact fun rest => Iff.rfl
  | cons a list ih =>
    rw [List.forall_mem_cons] at h
    exact h.1.append (ih h.2)

/-- The ways in which the text of a declaration can begin. -/
theorem declarationBody_cons {c : Char} : DeclarationBody depth (c :: text) ↔
    ((c = '"' ∨ c = '\'') ∧ ∃ literal rest, text = literal ++ c :: rest ∧ c ∉ literal ∧ DeclarationBody depth rest) ∨
    (c = '[' ∧ DeclarationBody (depth + 1) text) ∨ (c = ']' ∧ DeclarationBody (depth - 1) text) ∨
    (c ∉ ['"', '\'', '[', ']'] ∧ (c = '>' → depth ≠ 0) ∧ DeclarationBody depth text) := by
  constructor
  · intro h
    cases h with
    | quoted hquote hq h => exact .inl ⟨hquote, _, _, rfl, hq, h⟩
    | opening h => exact .inr (.inl ⟨rfl, h⟩)
    | closing h => exact .inr (.inr (.inl ⟨rfl, h⟩))
    | other hc hgt h => exact .inr (.inr (.inr ⟨hc, hgt, h⟩))
  · rintro (⟨hquote, literal, rest, rfl, hq, h⟩ | ⟨rfl, h⟩ | ⟨rfl, h⟩ | ⟨hc, hgt, h⟩)
    · exact .quoted hquote hq h
    · exact .opening h
    · exact .closing h
    · exact .other hc hgt h

theorem passedOver_char {c : Char} (hc : c ∉ ['"', '\'', '[', ']']) (hgt : c = '>' → depth ≠ 0) :
    PassedOver depth [c] := by
  intro rest
  rw [List.singleton_append, declarationBody_cons]
  simp_all

/-- Characters that begin and end neither literals, brackets nor declarations. -/
theorem passedOver_plain (h : text.all fun c => c ∉ ['"', '\'', '[', ']', '>']) : PassedOver depth text := by
  rw [← List.flatMap_singleton' text]
  refine .flatMap fun c hc => ?_
  have hplain := List.all_eq_true.1 h c hc
  simp only [decide_eq_true_eq, List.mem_cons, List.not_mem_nil, or_false, not_or] at hplain
  exact passedOver_char (by simp [hplain]) fun hgt => absurd hgt hplain.2.2.2.2

theorem passedOver_of_all {p : Char → Bool} (hp : ['"', '\'', '[', ']', '>'].all fun m => !p m) (h : text.all p) :
    PassedOver depth text := by
  refine passedOver_plain (List.all_eq_true.2 fun c hc => decide_eq_true fun hm => ?_)
  have hno := List.all_eq_true.1 hp c hm
  rw [List.all_eq_true.1 h c hc] at hno
  cases hno

theorem passedOver_spaces (h : IsSpaces text) : PassedOver depth text :=
  passedOver_of_all (by decide) (List.all_eq_true.2 h)

theorem passedOver_name (h : IsName text) : PassedOver depth text :=
  passedOver_of_all (by decide) (List.all_eq_true.2 h.all_isNameChar)

/-- A literal ends at the first quote, so there is one way to read it. -/
theorem passedOver_literal {quote : Char} {literal : List Char} (hquote : quote = '"' ∨ quote = '\'')
    (hq : quote ∉ literal) : PassedOver depth (quote :: literal ++ [quote]) := by
  intro rest
  rw [List.append_assoc, List.cons_append, declarationBody_cons]
  constructor
  · rintro (⟨-, literal', rest', htext, hq', h⟩ | ⟨rfl, -⟩ | ⟨rfl, -⟩ | ⟨hc, -⟩)
    · obtain ⟨between, rfl, hrest⟩ := exists_eq_append_of_notMem hq htext
      cases between with
      | nil =>
        obtain ⟨-, rfl⟩ := List.cons.inj hrest
        exact h
      | cons c between =>
        obtain ⟨rfl, -⟩ := List.cons.inj hrest
        exact absurd (List.mem_append_right _ List.mem_cons_self) hq'
    · rcases hquote with h | h <;> cases h
    · rcases hquote with h | h <;> cases h
    · rcases hquote with rfl | rfl <;> simp at hc
  · intro h
    exact .inl ⟨hquote, literal, rest, rfl, hq, h⟩

theorem declarationBody_opening : DeclarationBody depth ('[' :: text) ↔ DeclarationBody (depth + 1) text := by
  rw [declarationBody_cons]
  simp

theorem declarationBody_closing : DeclarationBody depth (']' :: text) ↔ DeclarationBody (depth - 1) text := by
  rw [declarationBody_cons]
  simp

/-- Inside brackets angle brackets mean nothing, so all that matters is whether quotes and brackets pair up. -/
theorem Paired.passedOver (h : Paired text) (depth : Nat) : PassedOver (depth + 1) text := by
  induction h generalizing depth with
  | nil => exact fun rest => Iff.rfl
  | quoted hquote hq _ ih =>
    have hall := (passedOver_literal hquote hq).append (ih depth)
    simpa using hall
  | bracketed _ _ ihinner ih =>
    intro rest
    simp only [List.cons_append, List.append_assoc]
    rw [declarationBody_opening, ihinner (depth + 1), declarationBody_closing]
    exact ih depth rest
  | other hc _ ih => exact (passedOver_char hc fun _ => Nat.succ_ne_zero depth).append (ih depth)

end

theorem DeclarationPart.Legal.passedOver {p : DeclarationPart} (h : p.Legal) (depth : Nat) :
    PassedOver depth p.text := by
  cases h with
  | plain hc =>
    simp only [List.mem_cons, List.not_mem_nil, or_false, not_or] at hc
    exact passedOver_char (by simp [hc]) fun hgt => absurd hgt hc.2.2.2.2.2
  | literal hquote hq => exact passedOver_literal hquote hq

theorem SubsetItem.Legal.passedOver {item : SubsetItem} (h : item.Legal)
    (hpaired : item.isOpaque → Paired item.text) (depth : Nat) : PassedOver (depth + 1) item.text := by
  cases h with
  | space hc => exact passedOver_spaces (List.forall_mem_singleton.2 hc)
  | @reference name hname =>
    have hname : PassedOver (depth + 1) (['%'] ++ name ++ [';']) :=
      ((passedOver_plain (by decide)).append (passedOver_name hname)).append (passedOver_plain (by decide))
    exact hname
  | @declaration keyword parts hkeyword hparts =>
    have hletters : keywords.all fun k => k.all Char.isAlpha := by decide
    have hopening : PassedOver (depth + 1) (['<', '!'] ++ keyword) :=
      (passedOver_plain (by decide)).append (passedOver_of_all (by decide) (List.all_eq_true.1 hletters keyword hkeyword))
    have hall := (hopening.append (.flatMap fun p hp => (hparts p hp).passedOver (depth + 1))).append
      (passedOver_char (c := '>') (by decide) fun _ => Nat.succ_ne_zero depth)
    simpa [text, Lexeme.text] using hall
  | instruction => exact (hpaired rfl).passedOver depth
  | comment => exact (hpaired rfl).passedOver depth

/-! ## Document types in a text -/

namespace Doctype

variable {d : Doctype}

/-- What stands before the internal subset does not matter for where a document type ends. -/
theorem declarationBody_iff (hd : d.Legal) : DeclarationBody 0 d.body ↔ DeclarationBody 1 d.subset := by
  have hkeyword : PassedOver 0 keyword := passedOver_plain (by decide)
  have hparts : PassedOver 0 (d.parts.flatMap DeclarationPart.text) :=
    .flatMap fun p hp => (hd.parts p hp).passedOver 0
  have hhead := ((hkeyword.append (passedOver_spaces hd.gap)).append (passedOver_name hd.name)).append hparts
  rw [body, hhead, declarationBody_opening]

/-- What pairs up inside each instruction and comment does not hide the end. -/
theorem declarationBody_of_paired (hd : d.Legal) (h : ∀ item ∈ d.items, item.isOpaque → Paired item.text) :
    DeclarationBody 1 d.subset := by
  have hitems : PassedOver 1 (d.items.flatMap SubsetItem.text) :=
    .flatMap fun item hitem => (hd.items item hitem).passedOver (h item hitem) 0
  rw [subset, hitems, declarationBody_closing, ← List.append_nil d.trailing, passedOver_spaces hd.trailing]
  exact .ended

theorem takenWhole_of_declarationBody (h : DeclarationBody 0 d.body) : d.TakenWhole := by
  intro front rest hfront
  obtain ⟨lexemes, htiles, htokens⟩ := Lexeme.tiles_of_tokenize hfront
  have hlegal : (Lexeme.declaration d.body).Legal := .declaration (by decide) h
  have htext : lexemes.flatMap Lexeme.text = front.toList := by
    rw [htiles.text_eq, List.append_nil]
  have hmark : d.text = '<' :: '!' :: (d.body ++ ['>']) := by
    simp [text, Lexeme.text]
  have hbefore : Lexeme.Tiles (front.toList ++ (d.text ++ rest.toList)) lexemes (d.text ++ rest.toList) := by
    refine htiles.before fun l _ _ c hc => ?_
    rw [hmark] at hc
    exact (Option.some.inj hc).symm
  have hafter : (Lexeme.declaration d.body).EndsBefore rest.toList := by
    intro hd
    cases hd
  have hall := hbefore.trans (.cons hlegal hafter .nil)
  have hfinal := Lexeme.tokenizeFrom_of_tiles_append hall
  have htoken : Lexeme.tokens .start (lexemes ++ [.declaration d.body]) =
      Lexeme.tokens .start lexemes ++ [⟨.declaration (.ofList d.text), .behind front.toList⟩] := by
    rw [Lexeme.tokens_append, Cursor.readAll_start, htext]
    rfl
  rw [List.flatMap_append, htext, htoken] at hfinal
  rw [tokenize, String.toList_append, String.toList_append, String.toList_ofList, List.append_assoc, hfinal, htokens,
    List.map_append, List.append_assoc]
  simp [tokenize, text]

theorem declarationBody_of_takenWhole (h : d.TakenWhole) : DeclarationBody 0 d.body := by
  have hempty : tokenize "" = [] := Lexeme.tokenizeFrom_of_tiles .nil .start
  -- Alone a document type is one token, so it is one lexeme, and that can only have been read as a declaration.
  have htokens : tokenize (.ofList d.text) = [.ok ⟨.declaration (.ofList d.text), .behind []⟩] := by
    simpa [hempty] using h "" "" (by simp [hempty])
  obtain ⟨lexemes, htiles, hlexemes⟩ := Lexeme.tiles_of_tokenize (s := .ofList d.text) (by simp [htokens])
  have hlength : lexemes.length = 1 := by
    simpa [htokens, Lexeme.length_tokens] using (congrArg List.length hlexemes).symm
  obtain ⟨l, rfl⟩ := List.length_eq_one_iff.1 hlength
  rw [String.toList_ofList] at htiles
  have hread : Lexeme.read d.text = .ok (l, []) := by
    generalize d.text = source at htiles
    cases htiles with
    | cons hl hr hnil =>
      cases hnil
      exact Lexeme.read_of_legal hl hr
  have hmark : d.text = '<' :: '!' :: (d.body ++ ['>']) := by
    simp [text, Lexeme.text]
  rw [hmark] at hread
  have hdeclaration := (Lexeme.read_declaration _ (by decide)).symm.trans hread
  obtain ⟨c, body, -, hbody, -, hlegal⟩ := readDeclaration_eq_ok_iff.1 hdeclaration
  have heq : d.body = c :: body := List.append_cancel_right hbody
  exact heq ▸ hlegal

end Doctype

/-- The declaration of a document type is taken whole exactly if its quotes and brackets come out even, those in the
instructions and comments of its internal subset counted with the others. So it is if they pair up inside each of
these. -/
theorem tokenize_doctype {d : Doctype} (hd : d.Legal) :
    (d.TakenWhole ↔ DeclarationBody 1 d.subset) ∧
      ((∀ item ∈ d.items, item.isOpaque → Paired item.text) → d.TakenWhole) := by
  have hiff : d.TakenWhole ↔ DeclarationBody 1 d.subset := by
    rw [← Doctype.declarationBody_iff hd]
    exact ⟨Doctype.declarationBody_of_takenWhole, Doctype.takenWhole_of_declarationBody⟩
  exact ⟨hiff, fun h => hiff.2 (Doctype.declarationBody_of_paired hd h)⟩

/-- Literals, and what pairs up in a comment and an instruction, may hold delimiters. -/
theorem tokenize_doctype_paired :
    let comment := SubsetItem.comment ['\'', ']', '>', '\'']
    let instruction := SubsetItem.instruction ['[', '>', ']']
    let entity := SubsetItem.declaration ['E', 'N', 'T', 'I', 'T', 'Y'] [.plain ' ', .plain 'e', .literal '"' [']', '>']]
    let d : Doctype := ⟨[' '], ['a'], [.plain ' '], [comment, .reference ['p'], instruction, entity], [' ']⟩
    d.Legal ∧ d.TakenWhole := by
  intro comment instruction entity d
  have hentity : entity.Legal := by
    refine .declaration (by decide) ?_
    simp only [List.forall_mem_cons, List.not_mem_nil, false_implies, implies_true, and_true]
    exact ⟨.plain (by decide), .plain (by decide), .literal (by decide) (by decide)⟩
  have hitems : ∀ item ∈ d.items, item.Legal := by
    simp only [d, List.forall_mem_cons, List.not_mem_nil, false_implies, implies_true, and_true]
    exact ⟨.comment (endsAtFirst_of_notMem (by decide)), .reference ⟨'p', [], rfl, by decide, nofun⟩,
      .instruction (endsAtFirst_of_notMem (by decide)), hentity⟩
  have hspace : IsSpaces [' '] := List.forall_mem_singleton.2 rfl
  have hlegal : d.Legal :=
    ⟨by decide, hspace, ⟨'a', [], rfl, by decide, nofun⟩, List.forall_mem_singleton.2 (.plain (by decide)), hitems, hspace⟩
  have hplain {s t : List Char} (hs : s.all fun c => c ∉ ['"', '\'', '[', ']']) (ht : Paired t) : Paired (s ++ t) := by
    induction s with
    | nil => exact ht
    | cons c s ih =>
      rw [List.all_cons, Bool.and_eq_true] at hs
      exact .other (of_decide_eq_true hs.1) (ih hs.2)
  have hcomment : Paired comment.text :=
    hplain (s := ['<', '!', '-', '-']) (by decide)
      (@Paired.quoted '\'' [']', '>'] _ (by decide) (by decide) (hplain (s := ['-', '-', '>']) (by decide) .nil))
  have hinstruction : Paired instruction.text :=
    hplain (s := ['<', '?']) (by decide)
      (@Paired.bracketed ['>'] _ (hplain (s := ['>']) (by decide) .nil) (hplain (s := ['?', '>']) (by decide) .nil))
  refine ⟨hlegal, (tokenize_doctype hlegal).2 ?_⟩
  simp only [d, List.forall_mem_cons, List.not_mem_nil, false_implies, implies_true, and_true]
  exact ⟨fun _ => hcomment, nofun, fun _ => hinstruction, nofun⟩

/-- An apostrophe in a comment opens a literal, and the text that follows the document type is lost with its end. -/
theorem tokenize_doctype_apostrophe :
    let d : Doctype := ⟨[' '], ['a'], [.plain ' '], [.comment [' ', 'd', 'o', 'n', '\'', 't', ' ']], []⟩
    d.Legal ∧ tokenize (.ofList d.text ++ "<a/>") = [.error ⟨⟨1, 1, 0⟩, SyntaxCause.unterminatedDeclaration.message⟩] ∧
      ¬ d.TakenWhole := by
  intro d
  have hlegal : d.Legal :=
    ⟨by decide, List.forall_mem_singleton.2 rfl, ⟨'a', [], rfl, by decide, nofun⟩,
      List.forall_mem_singleton.2 (.plain (by decide)),
      List.forall_mem_singleton.2 (.comment (endsAtFirst_of_notMem (by decide))), nofun⟩
  have htokens : tokenize (.ofList d.text ++ "<a/>") =
      [.error ⟨⟨1, 1, 0⟩, SyntaxCause.unterminatedDeclaration.message⟩] := by decide +kernel
  refine ⟨hlegal, htokens, fun h => ?_⟩
  have hempty : tokenize "" = [] := Lexeme.tokenizeFrom_of_tiles .nil .start
  have hwhole := h "" "<a/>" (by simp [hempty])
  rw [String.empty_append, htokens, hempty] at hwhole
  cases hwhole

end TagLint
