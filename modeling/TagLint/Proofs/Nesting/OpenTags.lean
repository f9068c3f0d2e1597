import TagLint.Markup.Nesting
/-!
# What a stream of tokens leaves open

What is known between two tokens, said of the tokens alone: which open tags are not closed (`openTags`),
which element came first (`firstName?`) and what was found wrong without ending the scan (`recovered`). A
`Nesting` that took the tokens holds exactly that (`Nesting.Reflects`).
-/

namespace TagLint

/-- An open tag and where it stands. -/
structure OpenTag where
  name : String
  attributes : List Attribute
  position : Position
deriving DecidableEq

namespace Token

/-- Whether a token is a tag. Only tags matter to the tree of elements. -/
def isTag (t : Token) : Bool :=
  match t.kind with
  | .openTag .. | .selfClosingTag .. | .closeTag _ => true
  | .comment _ | .declaration _ | .text .. => false

/-- The name of the element that begins with a token, if one does. -/
def begins? (t : Token) : Option String :=
  match t.kind with
  | .openTag name _ | .selfClosingTag name _ => some name
  | _ => none

/-- The open tags behind a token, from those before it, innermost first. A close tag closes the innermost. -/
def nest (opened : List OpenTag) (t : Token) : List OpenTag :=
  match t.kind with
  | .openTag name attributes => ⟨name, attributes, t.position⟩ :: opened
  | .closeTag _ => opened.tail
  | _ => opened

end Token

/-- The open tags of a stream that no close tag of it closes, innermost first. -/
def openTags (tokens : List Token) : List OpenTag := tokens.foldl Token.nest []

/-- The name of the first element that begins in a stream. -/
def firstName? (tokens : List Token) : Option String := tokens.findSome? Token.begins?

/-- What is wrong with a token behind others, if the scan goes on: with nothing open there may be no text, no
close tag and no second element. -/
def recoveredFault? (before : List Token) (t : Token) : Option NestingFault :=
  if openTags before = [] then
    match t.kind with
    | .text .. => if t.isBlank then none else some (.textOutsideRoot t.position)
    | .closeTag name => some (.closeWithoutOpen name t.position)
    | .openTag name _ | .selfClosingTag name _ =>
      (firstName? before).map fun root => .secondRoot name root t.position
    | .comment _ | .declaration _ => none
  else none

/-- What is wrong with tokens behind others, first to last, as far as the scan goes on. -/
def recoveredFrom (before : List Token) : List Token → List NestingFault
  | [] => []
  | t :: rest => (recoveredFault? before t).toList ++ recoveredFrom (before ++ [t]) rest

/-- What is wrong with a stream, first to last, as far as the scan goes on. -/
def recovered (tokens : List Token) : List NestingFault := recoveredFrom [] tokens

/-! ## One more token -/

theorem openTags_concat (tokens : List Token) (t : Token) : openTags (tokens ++ [t]) = t.nest (openTags tokens) := by
  simp [openTags]

theorem firstName?_concat (tokens : List Token) (t : Token) :
    firstName? (tokens ++ [t]) = (firstName? tokens).or t.begins? := by
  cases h : t.begins? <;> simp [firstName?, List.findSome?_append, h]

theorem recoveredFrom_append (before tokens more : List Token) :
    recoveredFrom before (tokens ++ more) = recoveredFrom before tokens ++ recoveredFrom (before ++ tokens) more := by
  induction tokens generalizing before with
  | nil => simp [recoveredFrom]
  | cons u tokens ih => simp [recoveredFrom, ih]

theorem recovered_concat (tokens : List Token) (t : Token) :
    recovered (tokens ++ [t]) = recovered tokens ++ (recoveredFault? tokens t).toList := by
  simp [recovered, recoveredFrom_append, recoveredFrom]

/-- Nothing is open where nothing was opened. -/
theorem openTags_of_firstName?_eq_none {tokens : List Token} (h : firstName? tokens = none) :
    openTags tokens = [] := by
  -- Only what begins an element opens one, so each token leaves the empty stack empty.
  have hnest : ∀ t ∈ tokens, t.nest [] = [] := by
    intro t ht
    have hb := List.findSome?_eq_none_iff.1 h t ht
    obtain ⟨kind, position⟩ := t
    cases kind with
    | openTag => cases hb
    | _ => rfl
  clear h
  unfold openTags
  induction tokens with
  | nil => rfl
  | cons t tokens ih =>
    rw [List.foldl_cons, hnest t (by simp)]
    exact ih fun u hu => hnest u (by simp [hu])

/-! ## The builder keeps up with the stream -/

/-- The tag that an open element was opened by. -/
def OpenElement.tag (e : OpenElement) : OpenTag := ⟨e.name, e.attributes, e.position⟩

namespace Nesting

/-- What is kept of the tokens taken so far agrees with the tokens. -/
structure Reflects (n : Nesting) (tokens : List Token) : Prop where
  stack : n.stack.map OpenElement.tag = openTags tokens
  rootName : n.rootName = firstName? tokens
  faults : n.faults.reverse = recovered tokens
  /-- With nothing open, the first element is complete if there is one. -/
  root : n.stack = [] → (n.root = none ↔ n.rootName = none)

theorem reflects_start : start.Reflects [] := by
  refine ⟨rfl, rfl, rfl, fun _ => ⟨fun _ => rfl, fun _ => rfl⟩⟩

theorem Reflects.openTags_eq_nil_iff {n : Nesting} {tokens : List Token} (h : n.Reflects tokens) :
    openTags tokens = [] ↔ n.stack = [] := by
  rw [← h.stack, List.map_eq_nil_iff]

theorem attach_tags (n : Nesting) (e : Element) :
    (n.attach e).stack.map OpenElement.tag = n.stack.map OpenElement.tag := by
  unfold attach
  split
  next parent rest hs => rw [hs]; rfl
  next hs => rfl

theorem attach_rootName (n : Nesting) (e : Element) : (n.attach e).rootName = n.rootName := by
  unfold attach; split <;> rfl

theorem attach_faults (n : Nesting) (e : Element) : (n.attach e).faults = n.faults := by
  unfold attach; split <;> rfl

/-- An element that is complete with nothing open is the root, or comes behind it. -/
theorem attach_root_ne_none {n : Nesting} {e : Element} (h : (n.attach e).stack = []) : (n.attach e).root ≠ none := by
  have hs : n.stack = [] := by
    rw [← List.map_eq_nil_iff (f := OpenElement.tag), ← attach_tags n e, h, List.map_nil]
  unfold attach
  rw [hs]
  cases n.root <;> simp

/-- Beginning an element leaves what is open as it is, and names or reports the element with nothing open. -/
theorem Reflects.beginElement {n : Nesting} {tokens : List Token} {t : Token} {name : String}
    (h : n.Reflects tokens) (ht : t.begins? = some name) :
    (n.beginElement name t.position).stack = n.stack ∧ (n.beginElement name t.position).root = n.root ∧
      (n.beginElement name t.position).rootName = firstName? (tokens ++ [t]) ∧
      (n.beginElement name t.position).faults.reverse = recovered (tokens ++ [t]) := by
  have hfirst := firstName?_concat tokens t
  have hfault (hopen : openTags tokens = []) : recoveredFault? tokens t =
      (firstName? tokens).map fun root => .secondRoot name root t.position := by
    obtain ⟨kind, position⟩ := t
    cases kind with
    | openTag | selfClosingTag => obtain rfl := Option.some.inj ht; simp [recoveredFault?, hopen]
    | _ => cases ht
  rw [ht, ← h.rootName] at hfirst
  rw [recovered_concat, hfirst, ← h.faults]
  unfold Nesting.beginElement
  split
  next e rest hs =>
    -- Inside an element an element has begun before, and its name stays the first.
    have hopen : openTags tokens ≠ [] := by rw [← h.stack, hs]; simp
    obtain ⟨root, hroot⟩ : ∃ root, n.rootName = some root := by
      rw [← Option.ne_none_iff_exists', h.rootName]
      exact fun hn => hopen (openTags_of_firstName?_eq_none hn)
    simp [hroot, recoveredFault?, hopen]
  next root hs hroot =>
    rw [hfault (h.openTags_eq_nil_iff.2 hs), ← h.rootName, hroot]
    exact ⟨rfl, rfl, hroot, by simp [report]⟩
  next hs hroot =>
    rw [hfault (h.openTags_eq_nil_iff.2 hs), ← h.rootName, hroot]
    simp

/-- A token that opens, closes and begins nothing changes the faults at most. -/
theorem Reflects.withFaults {n : Nesting} {tokens : List Token} {t : Token} {faults : List NestingFault}
    (h : n.Reflects tokens) (hopen : t.nest (openTags tokens) = openTags tokens) (hb : t.begins? = none)
    (hf : faults.reverse = n.faults.reverse ++ (recoveredFault? tokens t).toList) :
    Reflects { n with faults } (tokens ++ [t]) where
  stack := by rw [openTags_concat, hopen]; exact h.stack
  rootName := by rw [firstName?_concat, hb, Option.or_none]; exact h.rootName
  faults := by rw [recovered_concat, ← h.faults]; exact hf
  root := h.root

/-- Putting an element where it belongs opens and closes nothing. -/
theorem reflects_attach {n : Nesting} {tokens : List Token} (e : Element)
    (hs : n.stack.map OpenElement.tag = openTags tokens) (hn : n.rootName = firstName? tokens)
    (hf : n.faults.reverse = recovered tokens) (hne : firstName? tokens ≠ none) : (n.attach e).Reflects tokens where
  stack := by rw [attach_tags, hs]
  rootName := by rw [attach_rootName, hn]
  faults := by rw [attach_faults, hf]
  root := by
    intro hempty
    rw [attach_rootName, hn]
    exact ⟨fun hnone => absurd hnone (attach_root_ne_none hempty), fun hnone => absurd hnone hne⟩

/-- A token that does not end the scan is taken without losing track. -/
theorem Reflects.feed {n n' : Nesting} {tokens : List Token} {t : Token} (h : n.Reflects tokens)
    (hf : n.feed t = .ok n') : n'.Reflects (tokens ++ [t]) := by
  have hnil := h.openTags_eq_nil_iff
  obtain ⟨kind, position⟩ := t
  cases kind with
  | comment | declaration =>
    obtain rfl := Except.ok.inj hf
    exact h.withFaults rfl rfl (by simp [recoveredFault?])
  | text content cdata =>
    obtain rfl := Except.ok.inj hf
    have hfault : recoveredFault? tokens ⟨.text content cdata, position⟩ =
        if n.stack.isEmpty && !Token.isBlank ⟨.text content cdata, position⟩ then some (.textOutsideRoot position)
        else none := by
      by_cases hs : n.stack = []
      · cases hb : Token.isBlank ⟨.text content cdata, position⟩ <;> simp [recoveredFault?, hnil.2 hs, hs, hb]
      · simp [recoveredFault?, mt hnil.1 hs, hs]
    split
    next hout => exact h.withFaults rfl rfl (by rw [hfault, if_pos hout]; simp)
    next hout => exact h.withFaults rfl rfl (by rw [hfault, if_neg hout]; simp)
  | openTag name attributes =>
    obtain ⟨hs, -, hn, hfaults⟩ := h.beginElement (t := ⟨.openTag name attributes, position⟩) rfl
    obtain rfl := Except.ok.inj hf
    refine ⟨?_, hn, hfaults, fun h => by cases h⟩
    rw [openTags_concat, ← h.stack, List.map_cons, hs]
    rfl
  | selfClosingTag name attributes =>
    obtain ⟨hs, -, hn, hfaults⟩ := h.beginElement (t := ⟨.selfClosingTag name attributes, position⟩) rfl
    obtain rfl := Except.ok.inj hf
    refine reflects_attach _ ?_ hn hfaults ?_
    · rw [hs, openTags_concat]
      exact h.stack
    · rw [firstName?_concat]
      simp [Token.begins?]
  | closeTag name =>
    simp only [Nesting.feed, Nesting.close] at hf
    split at hf
    next hs =>
      obtain rfl := Except.ok.inj hf
      have hopen := hnil.2 hs
      exact h.withFaults (by rw [hopen]; rfl) rfl (by simp [recoveredFault?, hopen])
    next e rest hs =>
      split at hf
      next hname =>
        obtain rfl := Except.ok.inj hf
        have hopen : openTags tokens ≠ [] := by rw [← h.stack, hs]; simp
        have hfirst : firstName? (tokens ++ [⟨.closeTag name, position⟩]) = firstName? tokens := by
          rw [firstName?_concat]; exact Option.or_none
        refine reflects_attach _ ?_ (by rw [hfirst]; exact h.rootName) ?_ ?_
        · rw [openTags_concat, ← h.stack, hs]
          rfl
        · rw [recovered_concat, ← h.faults]
          simp [recoveredFault?, hopen]
        · rw [hfirst]
          exact fun hnone => hopen (openTags_of_firstName?_eq_none hnone)
      next => cases hf

end Nesting

end TagLint
