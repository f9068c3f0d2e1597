import TagLint.Json
import TagLint.Text.Digits
import TagLint.Text.Split
/-!
# The tokens of a JSON text

A reader of standard JSON takes a text apart into tokens, with blanks anywhere between them: brackets, commas, colons,
the three words, numbers and strings with all their escapes. Of the numbers it knows the natural ones, which are all
that a value has here. The tokens of the indented form of a value are those that the value is made of
(`readsAs_print`).
-/

namespace TagLint.Json

inductive Token where
  | openArray
  | closeArray
  | openObject
  | closeObject
  | comma
  | colon
  | null
  | bool (value : Bool)
  | number (value : Nat)
  | string (value : String)

/-! ## The reader -/

/-- The characters that may stand between tokens. -/
def isBlank (c : Char) : Bool := c == ' ' || c == '\t' || c == '\n' || c == '\r'

/-- The character that a letter behind a backslash stands for. -/
def escaped? : Char → Option Char
  | '"' => some '"'
  | '\\' => some '\\'
  | '/' => some '/'
  | 'b' => some '\x08'
  | 'f' => some '\x0C'
  | 'n' => some '\n'
  | 'r' => some '\r'
  | 't' => some '\t'
  | _ => none

/-- Reads a unit of 16 bits in four hexadecimal digits. -/
def readUnit : List Char → Option (Nat × List Char)
  | '\\' :: 'u' :: a :: b :: c :: d :: rest => (Digits.number? 16 [a, b, c, d]).map (·, rest)
  | _ => none

/-- Reads a character written in units. One above U+FFFF has two, surrogates that stand for nothing alone. -/
def readUnits (text : List Char) : Option (Char × List Char) := do
  let (unit, rest) ← readUnit text
  if unit < 0xD800 ∨ 0xE000 ≤ unit then some (.ofNat unit, rest)
  else
    let (low, left) ← readUnit rest
    if unit < 0xDC00 ∧ 0xDC00 ≤ low ∧ low < 0xE000 then
      some (.ofNat (0x10000 + (unit - 0xD800) * 0x400 + (low - 0xDC00)), left)
    else none

/-- Reads a character of a string, which is not the quote that closes it. -/
def readChar : List Char → Option (Char × List Char)
  | '\\' :: 'u' :: rest => readUnits ('\\' :: 'u' :: rest)
  | '\\' :: c :: rest => (escaped? c).map (·, rest)
  | c :: rest => if c.toNat < 0x20 ∨ c = '"' ∨ c = '\\' then none else some (c, rest)
  | [] => none

theorem length_lt_of_readUnit {text rest : List Char} {unit : Nat} (h : readUnit text = some (unit, rest)) :
    rest.length < text.length := by
  unfold readUnit at h
  split at h
  next a b c d left =>
    obtain ⟨_, -, heq⟩ := Option.map_eq_some_iff.1 h
    obtain ⟨-, rfl⟩ := Prod.mk.inj heq
    simp only [List.length_cons]
    omega
  next => cases h

theorem length_lt_of_readUnits {text rest : List Char} {c : Char} (h : readUnits text = some (c, rest)) :
    rest.length < text.length := by
  obtain ⟨⟨unit, behind⟩, hunit, h⟩ := Option.bind_eq_some_iff.1 h
  have hlt := length_lt_of_readUnit hunit
  simp only at h
  split at h
  next =>
    obtain ⟨-, rfl⟩ := Prod.mk.inj (Option.some.inj h)
    exact hlt
  next =>
    obtain ⟨⟨low, left⟩, hlow, h⟩ := Option.bind_eq_some_iff.1 h
    have hlt' := length_lt_of_readUnit hlow
    simp only at h
    split at h
    next =>
      obtain ⟨-, rfl⟩ := Prod.mk.inj (Option.some.inj h)
      exact Nat.lt_trans hlt' hlt
    next => cases h

theorem length_lt_of_readChar {text rest : List Char} {c : Char} (h : readChar text = some (c, rest)) :
    rest.length < text.length := by
  unfold readChar at h
  split at h
  next => exact length_lt_of_readUnits h
  next e left _ =>
    obtain ⟨_, -, heq⟩ := Option.map_eq_some_iff.1 h
    obtain ⟨-, rfl⟩ := Prod.mk.inj heq
    simp only [List.length_cons]
    omega
  next =>
    split at h
    next => cases h
    next =>
      obtain ⟨-, rfl⟩ := Prod.mk.inj (Option.some.inj h)
      exact Nat.lt_succ_self _
  next => cases h

/-- Reads a string up to its closing quote, behind the characters `before`, last first. -/
def readString (before text : List Char) : Option (String × List Char) :=
  if text.head? = some '"' then some (.ofList before.reverse, text.tail)
  else
    match _ : readChar text with
    | some (c, rest) => readString (c :: before) rest
    | none => none
termination_by text.length
decreasing_by exact length_lt_of_readChar ‹_›

/-- Reads a natural number, which has no needless zero in front. -/
def readNumber (text : List Char) : Option (Nat × List Char) :=
  let digits := text.takeWhile Char.isDigit
  if digits = [] ∨ (digits.head? = some '0' ∧ digits ≠ ['0']) then none
  else some (Nat.ofDigitChars 10 digits 0, text.dropWhile Char.isDigit)

/-- Reads the token that begins with a character, up to what is behind it. -/
def readToken (c : Char) (rest : List Char) : Option (Token × List Char) :=
  match c with
  | '[' => some (.openArray, rest)
  | ']' => some (.closeArray, rest)
  | '\x7b' => some (.openObject, rest)
  | '\x7d' => some (.closeObject, rest)
  | ',' => some (.comma, rest)
  | ':' => some (.colon, rest)
  | 'n' => (after? ['u', 'l', 'l'] rest).map (.null, ·)
  | 't' => (after? ['r', 'u', 'e'] rest).map (.bool true, ·)
  | 'f' => (after? ['a', 'l', 's', 'e'] rest).map (.bool false, ·)
  | '"' => (readString [] rest).map fun (value, left) => (.string value, left)
  | _ => (readNumber (c :: rest)).map fun (value, left) => (.number value, left)

theorem length_le_of_readString {before text left : List Char} {value : String}
    (h : readString before text = some (value, left)) : left.length ≤ text.length := by
  fun_induction readString before text with
  | case1 before text =>
    obtain ⟨-, rfl⟩ := Prod.mk.inj (Option.some.inj h)
    rw [List.length_tail]
    exact Nat.sub_le _ _
  | case2 before text _ c rest hc ih => exact Nat.le_trans (ih h) (Nat.le_of_lt (length_lt_of_readChar hc))
  | case3 => cases h

theorem length_lt_of_readNumber {text left : List Char} {value : Nat} (h : readNumber text = some (value, left)) :
    left.length < text.length := by
  simp only [readNumber] at h
  split at h
  next => cases h
  next hdigits =>
    obtain ⟨-, rfl⟩ := Prod.mk.inj (Option.some.inj h)
    have hpos : 0 < (text.takeWhile Char.isDigit).length := List.length_pos_iff.2 fun hnil => hdigits (.inl hnil)
    have hlength := congrArg List.length (List.takeWhile_append_dropWhile (p := Char.isDigit) (l := text))
    rw [List.length_append] at hlength
    omega

theorem length_le_of_after? {mark text left : List Char} (h : after? mark text = some left) :
    left.length ≤ text.length := by
  rw [after?_eq_some_iff] at h
  rw [h, List.length_append]
  exact Nat.le_add_left _ _

theorem length_le_of_readToken {c : Char} {rest left : List Char} {token : Token}
    (h : readToken c rest = some (token, left)) : left.length ≤ rest.length := by
  unfold readToken at h
  split at h
  case h_7 | h_8 | h_9 =>
    obtain ⟨_, hword, heq⟩ := Option.map_eq_some_iff.1 h
    obtain ⟨-, rfl⟩ := Prod.mk.inj heq
    exact length_le_of_after? hword
  case h_10 =>
    obtain ⟨_, hstring, heq⟩ := Option.map_eq_some_iff.1 h
    obtain ⟨-, rfl⟩ := Prod.mk.inj heq
    exact length_le_of_readString hstring
  case h_11 =>
    obtain ⟨_, hnumber, heq⟩ := Option.map_eq_some_iff.1 h
    obtain ⟨-, rfl⟩ := Prod.mk.inj heq
    exact Nat.le_of_lt_succ (length_lt_of_readNumber hnumber)
  all_goals
    obtain ⟨-, rfl⟩ := Prod.mk.inj (Option.some.inj h)
    exact Nat.le_refl _

/-- The tokens of a text. -/
def tokens? (text : List Char) : Option (List Token) :=
  match text with
  | [] => some []
  | c :: rest =>
    if isBlank c then tokens? rest
    else
      match _ : readToken c rest with
      | some (token, left) => (tokens? left).map (token :: ·)
      | none => none
termination_by text.length
decreasing_by
  · exact Nat.lt_succ_self _
  · exact Nat.lt_succ_of_le (length_le_of_readToken ‹_›)

/-! ## Reading what is printed -/

/-- A text that no digit begins. -/
def NoDigitAhead (text : List Char) : Prop := ∀ c ∈ text.head?, c.isDigit = false

theorem tokens?_blank {c : Char} {rest : List Char} (h : isBlank c) : tokens? (c :: rest) = tokens? rest := by
  rw [tokens?, if_pos h]

theorem tokens?_newline (level : Nat) (rest : List Char) : tokens? (newline level ++ rest) = tokens? rest := by
  rw [newline, List.cons_append, tokens?_blank rfl]
  induction 2 * level with
  | zero => rfl
  | succ n ih => rw [List.replicate_succ, List.cons_append, tokens?_blank rfl, ih]

theorem tokens?_of_readToken {c : Char} {rest left : List Char} {token : Token} (hc : isBlank c = false)
    (h : readToken c rest = some (token, left)) : tokens? (c :: rest) = (tokens? left).map (token :: ·) := by
  rw [tokens?, if_neg (by simp [hc])]
  split
  next token' left' h' =>
    obtain ⟨rfl, rfl⟩ := Prod.mk.inj (Option.some.inj (h.symm.trans h'))
    rfl
  next h' =>
    rw [h'] at h
    cases h

/-! ### Strings -/

theorem number?_hexDigits :
    ∀ n < 0x20, Digits.number? 16 ['0', '0', hexDigit (n / 16), hexDigit (n % 16)] = some n := by
  decide

theorem readChar_escapeChar (c : Char) (rest : List Char) : readChar (escapeChar c ++ rest) = some (c, rest) := by
  unfold escapeChar
  -- The escapes of one letter, in their order.
  iterate 7
    split
    next h => subst h; rfl
  split
  next hcontrol =>
    have hunit : readUnit ('\\' :: 'u' :: '0' :: '0' :: hexDigit (c.toNat / 16) :: hexDigit (c.toNat % 16) :: rest) =
        some (c.toNat, rest) := by
      rw [readUnit, number?_hexDigits _ hcontrol]
      rfl
    simp only [List.cons_append, List.nil_append, readChar, readUnits, hunit, Option.bind_eq_bind, Option.bind_some]
    rw [if_pos (.inl (by omega)), Char.ofNat_toNat]
  next hquote hbackslash _ _ _ _ _ hcontrol =>
    rw [List.singleton_append, readChar]
    · rw [if_neg]
      rintro (h | h | h)
      · exact hcontrol h
      · exact hquote h
      · exact hbackslash h
    · rintro _ h -
      exact hbackslash h
    · rintro _ _ h -
      exact hbackslash h

theorem readString_of_readChar {before text rest : List Char} {c : Char} (h : readChar text = some (c, rest)) :
    readString before text = readString (c :: before) rest := by
  have hquote : text.head? ≠ some '"' := by
    intro hhead
    obtain ⟨t, rfl⟩ : ∃ t, text = '"' :: t := List.head?_eq_some_iff.1 hhead
    cases h
  rw [readString, if_neg hquote]
  split
  next c' rest' h' =>
    obtain ⟨rfl, rfl⟩ := Prod.mk.inj (Option.some.inj (h.symm.trans h'))
    rfl
  next h' =>
    rw [h'] at h
    cases h

theorem readString_escaped (before text rest : List Char) :
    readString before (text.flatMap escapeChar ++ '"' :: rest) = some (.ofList (before.reverse ++ text), rest) := by
  induction text generalizing before with
  | nil =>
    rw [List.flatMap_nil, List.nil_append, readString, if_pos List.head?_cons, List.append_nil]
    rfl
  | cons c text ih =>
    rw [List.flatMap_cons, List.append_assoc, readString_of_readChar (readChar_escapeChar c _), ih, List.reverse_cons,
      List.append_assoc]
    rfl

theorem tokens?_quote (s : String) (rest : List Char) :
    tokens? (quote s ++ rest) = (tokens? rest).map (.string s :: ·) := by
  have hstring := readString_escaped [] s.toList rest
  rw [quote, List.append_assoc, List.cons_append]
  refine tokens?_of_readToken rfl ?_
  rw [readToken, List.singleton_append, hstring, List.reverse_nil, List.nil_append, String.ofList_toList]
  rfl

/-! ### Numbers -/

theorem head?_toDigits {n : Nat} (h : (Nat.toDigits 10 n).head? = some '0') : n = 0 := by
  induction n using Nat.strongRecOn with
  | ind n ih =>
    rw [Nat.toDigits_eq_if (by decide)] at h
    split at h
    next hlt =>
      have hall : ∀ m < 10, m.digitChar = '0' → m = 0 := by decide
      exact hall n hlt (Option.some.inj h)
    next hle =>
      obtain ⟨d, digits, hdigits⟩ := List.exists_cons_of_ne_nil (Nat.toDigits_ne_nil (b := 10) (n := n / 10))
      rw [hdigits, List.cons_append, List.head?_cons] at h
      have := ih (n / 10) (by omega) (by rw [hdigits, List.head?_cons, h])
      omega

theorem readNumber_repr (n : Nat) {rest : List Char} (h : NoDigitAhead rest) :
    readNumber ((Nat.repr n).toList ++ rest) = some (n, rest) := by
  have hdigits : ∀ c ∈ Nat.toDigits 10 n, c.isDigit := fun c hc =>
    Nat.isDigit_of_mem_toDigits (by decide) (by decide) hc
  have hrest : rest.takeWhile Char.isDigit = [] ∧ rest.dropWhile Char.isDigit = rest := by
    cases rest with
    | nil => exact ⟨rfl, rfl⟩
    | cons c rest =>
      have hc := h c rfl
      rw [List.takeWhile_cons, List.dropWhile_cons, hc]
      exact ⟨rfl, rfl⟩
  have hzero : ¬(Nat.toDigits 10 n = [] ∨ ((Nat.toDigits 10 n).head? = some '0' ∧ Nat.toDigits 10 n ≠ ['0'])) := by
    rintro (hnil | ⟨hhead, hne⟩)
    · exact Nat.toDigits_ne_nil hnil
    · rw [head?_toDigits hhead] at hne
      exact hne rfl
  rw [Nat.repr_eq_ofList_toDigits, String.toList_ofList]
  simp only [readNumber]
  rw [List.takeWhile_append_of_pos hdigits, List.dropWhile_append_of_pos hdigits, hrest.1, hrest.2, List.append_nil,
    if_neg hzero, Nat.ofDigitChars_ten_toDigits]

theorem readToken_of_isDigit {c : Char} (h : c.isDigit) (rest : List Char) :
    readToken c rest = (readNumber (c :: rest)).map fun (value, left) => (.number value, left) := by
  unfold readToken
  split
  case h_11 => rfl
  all_goals exact absurd h (by decide)

theorem isBlank_of_isDigit {c : Char} (h : c.isDigit) : isBlank c = false := by
  rw [isBlank, Bool.or_eq_false_iff, Bool.or_eq_false_iff, Bool.or_eq_false_iff]
  refine ⟨⟨⟨?_, ?_⟩, ?_⟩, ?_⟩ <;> rw [beq_eq_false_iff_ne] <;> rintro rfl <;> exact absurd h (by decide)

theorem tokens?_number (n : Nat) {rest : List Char} (h : NoDigitAhead rest) :
    tokens? ((Nat.repr n).toList ++ rest) = (tokens? rest).map (.number n :: ·) := by
  have hnumber := readNumber_repr n h
  obtain ⟨c, digits, hdigits⟩ := List.exists_cons_of_ne_nil (Nat.toDigits_ne_nil (b := 10) (n := n))
  have hmem : c ∈ Nat.toDigits 10 n := hdigits ▸ List.mem_cons_self
  have hc : c.isDigit := Nat.isDigit_of_mem_toDigits (by decide) (by decide) hmem
  rw [Nat.repr_eq_ofList_toDigits, String.toList_ofList, hdigits, List.cons_append] at hnumber ⊢
  refine tokens?_of_readToken (isBlank_of_isDigit hc) ?_
  rw [readToken_of_isDigit hc, hnumber]
  rfl

/-! ### Values -/

/-- The tokens of parts with commas between them. -/
def separated (parts : List (List Token)) : List Token := [Token.comma].intercalate parts

theorem separated_singleton (part : List Token) : separated [part] = part := List.intercalate_singleton

theorem separated_cons_cons (part next : List Token) (parts : List (List Token)) :
    separated (part :: next :: parts) = part ++ .comma :: separated (next :: parts) := by
  rw [separated, separated, List.intercalate_cons_cons, List.append_assoc]
  rfl

/-- The tokens that a value is made of. -/
def tokens : Json → List Token
  | .null => [.null]
  | .bool value => [.bool value]
  | .number value => [.number value]
  | .string value => [.string value]
  | .array items => .openArray :: separated (items.map fun item => tokens item) ++ [.closeArray]
  | .object fields =>
    .openObject :: separated (fields.map fun field => .string field.1 :: .colon :: tokens field.2) ++ [.closeObject]
termination_by value => sizeOf value
decreasing_by
  · have := List.sizeOf_lt_of_mem ‹item ∈ items›
    simp
    omega
  · have := List.sizeOf_lt_of_mem ‹field ∈ fields›
    obtain ⟨key, value⟩ := field
    simp at this ⊢
    omega

/-- A text reads as the tokens, whatever stands behind it that no digit begins. -/
def ReadsAs (text : List Char) (list : List Token) : Prop :=
  ∀ rest, NoDigitAhead rest → tokens? (text ++ rest) = (tokens? rest).map (list ++ ·)

theorem ReadsAs.of_token {text : List Char} {token : Token}
    (h : ∀ rest, tokens? (text ++ rest) = (tokens? rest).map (token :: ·)) : ReadsAs text [token] :=
  fun rest _ => h rest

theorem noDigitAhead_cons {c : Char} {rest : List Char} (h : c.isDigit = false) : NoDigitAhead (c :: rest) := by
  rintro d hd
  obtain rfl := Option.some.inj hd
  exact h

section

variable {α : Type} {text : α → List Char} {word : α → List Token} {left right : Char} {opening closing : Token}

/-- Parts up to the bracket that closes them, from the first part on. -/
theorem tokens?_parts {a : α} {list : List α} (level : Nat) (rest : List Char)
    (hclosing : ∀ rest, tokens? (right :: rest) = (tokens? rest).map (closing :: ·))
    (h : ∀ b ∈ a :: list, ReadsAs (text b) (word b)) :
    tokens? ((',' :: newline (level + 1)).intercalate ((a :: list).map text) ++ (newline level ++ right :: rest)) =
      (tokens? rest).map (separated ((a :: list).map word) ++ closing :: ·) := by
  have hcomma (rest : List Char) : tokens? (',' :: rest) = (tokens? rest).map (.comma :: ·) :=
    tokens?_of_readToken rfl rfl
  induction list generalizing a with
  | nil =>
    have ha := h a List.mem_cons_self
    have hahead : NoDigitAhead (newline level ++ right :: rest) := noDigitAhead_cons rfl
    rw [List.map_singleton, List.map_singleton, List.intercalate_singleton, separated_singleton, ha _ hahead,
      tokens?_newline, hclosing, Option.map_map]
    rfl
  | cons b list ih =>
    obtain ⟨ha, hlist⟩ := List.forall_mem_cons.1 h
    have htext : (',' :: newline (level + 1)).intercalate ((a :: b :: list).map text) = text a ++
        (',' :: newline (level + 1)) ++ (',' :: newline (level + 1)).intercalate ((b :: list).map text) :=
      List.intercalate_cons_cons
    have hword : separated ((a :: b :: list).map word) = word a ++ .comma :: separated ((b :: list).map word) :=
      separated_cons_cons _ _ _
    rw [htext, hword, List.append_assoc, List.append_assoc, List.cons_append, ha _ (noDigitAhead_cons rfl), hcomma,
      tokens?_newline, ih hlist, Option.map_map, Option.map_map]
    simp only [Function.comp_def, List.append_assoc, List.cons_append]

/-- Parts between brackets. -/
theorem readsAs_bracket {list : List α} (level : Nat)
    (hopening : ∀ rest, tokens? (left :: rest) = (tokens? rest).map (opening :: ·))
    (hclosing : ∀ rest, tokens? (right :: rest) = (tokens? rest).map (closing :: ·))
    (h : ∀ a ∈ list, ReadsAs (text a) (word a)) :
    ReadsAs (bracket left right level (list.map text)) (opening :: separated (list.map word) ++ [closing]) := by
  intro rest _
  cases list with
  | nil =>
    rw [List.map_nil, bracket, List.cons_append, List.singleton_append, hopening, hclosing, Option.map_map]
    rfl
  | cons a list =>
    rw [List.map_cons, bracket]
    · rw [← List.map_cons, List.append_assoc, List.append_assoc, List.append_assoc, List.cons_append, hopening,
        tokens?_newline, List.singleton_append, tokens?_parts level rest hclosing h, Option.map_map]
      simp only [Function.comp_def, List.append_assoc, List.cons_append, List.nil_append]
    · exact List.cons_ne_nil _ _

end

/-- The indented form of a value reads as its tokens, at every level. -/
theorem readsAs_print (level : Nat) (value : Json) : ReadsAs (print level value) value.tokens := by
  fun_induction print level value with
  | case1 | case2 | case3 =>
    rw [tokens]
    exact .of_token fun rest => tokens?_of_readToken rfl rfl
  | case4 level n =>
    rw [tokens]
    exact fun rest hrest => tokens?_number n hrest
  | case5 level s =>
    rw [tokens]
    exact .of_token (tokens?_quote s)
  | case6 level items ih =>
    rw [tokens]
    exact readsAs_bracket level (fun _ => tokens?_of_readToken rfl rfl) (fun _ => tokens?_of_readToken rfl rfl) ih
  | case7 level fields ih =>
    rw [tokens]
    refine readsAs_bracket level (fun _ => tokens?_of_readToken rfl rfl) (fun _ => tokens?_of_readToken rfl rfl) ?_
    intro field hfield rest hrest
    have hcolon (rest : List Char) : tokens? (':' :: rest) = (tokens? rest).map (.colon :: ·) :=
      tokens?_of_readToken rfl rfl
    rw [List.append_assoc, tokens?_quote, List.cons_append, hcolon, List.cons_append, tokens?_blank rfl,
      ih field hfield rest hrest, Option.map_map, Option.map_map]
    rfl

end TagLint.Json
