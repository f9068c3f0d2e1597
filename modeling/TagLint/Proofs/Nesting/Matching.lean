import TagLint.Proofs.Nesting.Linearisation
/-!
# Which close tag belongs to which open tag

Behind an open tag stand the elements inside it, written out, and then its close tag. Tags can be read so in one way
only (`Linearises.split_unique`, `Linearises.of_append`). So they tell which open tags have no close tag among them, and
which elements inside these are complete (`LeavesOpen`, `LeavesOpen.unique`).
-/

namespace TagLint

/-! ## Nothing is closed that was not opened -/

/-- Tags that close nothing that was open before them: at any place between them it is still open. -/
def ClosesNothing (tags : List Token) : Prop :=
  ∀ before after, tags = before ++ after → ∀ opened, opened <:+ before.foldl Token.nest opened

theorem closesNothing_nil : ClosesNothing [] := by
  intro before after ht opened
  obtain ⟨rfl, -⟩ := List.append_eq_nil_iff.1 ht.symm
  exact List.suffix_rfl

/-- Tags that write out elements close only what they open. -/
theorem Linearises.closesNothing {tags : List Token} {es : List Element} (h : Linearises tags es) :
    ClosesNothing tags := by
  induction h with
  | nil => exact closesNothing_nil
  | selfClosing _ ih =>
    intro before after ht opened
    cases before with
    | nil => exact List.suffix_rfl
    | cons t before =>
      simp only [List.cons_append, List.cons.injEq] at ht
      obtain ⟨rfl, ht⟩ := ht
      exact ih before after ht opened
  | @element name attributes position closed inner tags children es hinner _ ihinner ih =>
    intro before after ht opened
    cases before with
    | nil => exact List.suffix_rfl
    | cons t before =>
      simp only [List.cons_append, List.cons.injEq] at ht
      obtain ⟨rfl, ht⟩ := ht
      -- The place is inside the element, or behind its close tag.
      rcases List.append_eq_append_iff.1 ht with ⟨mid, rfl, hmid⟩ | ⟨mid, rfl, -⟩
      · cases mid with
        | nil =>
          rw [List.append_nil]
          exact (List.suffix_cons _ _).trans (ihinner inner [] (List.append_nil _).symm _)
        | cons c mid =>
          simp only [List.cons_append, List.cons.injEq] at hmid
          obtain ⟨rfl, hmid⟩ := hmid
          rw [List.foldl_cons, List.foldl_append, hinner.foldl_nest, List.foldl_cons]
          exact ih mid after hmid opened
      · exact (List.suffix_cons _ _).trans (ihinner before mid rfl _)

theorem ClosesNothing.append {tags more : List Token} (h : ClosesNothing tags) (hmore : ClosesNothing more) :
    ClosesNothing (tags ++ more) := by
  intro before after ht opened
  rcases List.append_eq_append_iff.1 ht with ⟨mid, rfl, rfl⟩ | ⟨mid, rfl, -⟩
  · rw [List.foldl_append]
    exact (h tags [] (List.append_nil _).symm opened).trans (hmore mid after rfl _)
  · exact h before mid rfl opened

theorem ClosesNothing.openTag {name : String} {attributes : List Attribute} {position : Position} {tags : List Token}
    (h : ClosesNothing tags) : ClosesNothing (⟨.openTag name attributes, position⟩ :: tags) := by
  intro before after ht opened
  cases before with
  | nil => exact List.suffix_rfl
  | cons t before =>
    simp only [List.cons_append, List.cons.injEq] at ht
    obtain ⟨rfl, ht⟩ := ht
    exact (List.suffix_cons _ _).trans (h before after ht _)

/-- An open tag has its close tag in what follows it: complete elements stand between the two. -/
def ClosedIn (name : String) (after : List Token) : Prop :=
  ∃ inner children position rest, Linearises inner children ∧ after = inner ++ ⟨.closeTag name, position⟩ :: rest

theorem ClosesNothing.not_closedIn {name : String} {tags : List Token} (h : ClosesNothing tags) :
    ¬ ClosedIn name tags := by
  rintro ⟨inner, children, position, rest, hinner, rfl⟩
  -- An open tag in front would be closed behind the elements.
  have hopen := h (inner ++ [⟨.closeTag name, position⟩]) rest (by simp) [⟨name, [], position⟩]
  rw [List.foldl_append, hinner.foldl_nest] at hopen
  exact absurd (List.suffix_nil.1 hopen) (List.cons_ne_nil _ _)

/-! ## Tags are read in one way -/

variable {tags more : List Token} {es es' : List Element}

/-- Complete elements with a close tag behind them go no further than the close tag. -/
theorem Linearises.eq_nil_of_closeTag {mid rest : List Token} {name : String} {position : Position}
    (h : Linearises tags es) (h' : Linearises (tags ++ mid) es')
    (ht : ⟨.closeTag name, position⟩ :: rest = mid ++ more) : mid = [] := by
  cases mid with
  | nil => rfl
  | cons t mid =>
    simp only [List.cons_append, List.cons.injEq] at ht
    obtain ⟨rfl, -⟩ := ht
    exact absurd ⟨tags, es, position, mid, h, rfl⟩ h'.closesNothing.not_closedIn

/-- There is one way to split tags into complete elements and a close tag behind them. -/
theorem Linearises.split_unique {inner inner' rest rest' : List Token} {name name' : String}
    {position position' : Position} (h : Linearises inner es) (h' : Linearises inner' es')
    (ht : inner ++ ⟨.closeTag name, position⟩ :: rest = inner' ++ ⟨.closeTag name', position'⟩ :: rest') :
    inner = inner' ∧ rest = rest' := by
  rcases List.append_eq_append_iff.1 ht with ⟨mid, rfl, hmid⟩ | ⟨mid, rfl, hmid⟩
  · obtain rfl := h.eq_nil_of_closeTag h' hmid
    simp only [List.nil_append, List.cons.injEq] at hmid
    exact ⟨(List.append_nil _).symm, hmid.2⟩
  · obtain rfl := h'.eq_nil_of_closeTag h hmid
    simp only [List.nil_append, List.cons.injEq] at hmid
    exact ⟨List.append_nil _, hmid.2.symm⟩

/-- Where tags begin with elements written out, the elements that they write out begin with these. -/
theorem Linearises.of_append (h : Linearises tags es) (h' : Linearises (tags ++ more) es') :
    ∃ behind, es' = es ++ behind ∧ Linearises more behind := by
  -- By induction on how the front is written. An element inside it ends at the same close tag in both.
  induction h generalizing more es' with
  | nil => exact ⟨es', rfl, h'⟩
  | selfClosing _ ih =>
    cases h' with
    | selfClosing h' =>
      obtain ⟨behind, rfl, hmore⟩ := ih h'
      exact ⟨behind, rfl, hmore⟩
  | @element name attributes position closed inner tags children es hinner _ ihinner ih =>
    generalize hall : ⟨.openTag name attributes, position⟩ :: (inner ++ ⟨.closeTag name, closed⟩ :: tags) ++ more = all at h'
    cases h' with
    | nil => cases hall
    | selfClosing => cases hall
    | @element _ _ _ _ inner' _ children' _ hinner' hrest =>
      simp only [List.cons_append, List.append_assoc, List.cons.injEq, Token.mk.injEq, TokenKind.openTag.injEq] at hall
      obtain ⟨⟨⟨rfl, rfl⟩, rfl⟩, hall⟩ := hall
      obtain ⟨rfl, rfl⟩ := hinner.split_unique hinner' hall
      rw [← List.append_nil inner] at hinner'
      obtain ⟨none, rfl, hnone⟩ := ihinner hinner'
      cases hnone
      obtain ⟨behind, rfl, hmore⟩ := ih hrest
      exact ⟨behind, by rw [List.append_nil]; rfl, hmore⟩

/-- Tags write out elements in one way. -/
theorem Linearises.unique (h : Linearises tags es) (h' : Linearises tags es') : es = es' := by
  rw [← List.append_nil tags] at h'
  obtain ⟨behind, rfl, hnone⟩ := h.of_append h'
  cases hnone
  exact (List.append_nil es).symm

/-! ## What is left open -/

/-- The elements that are complete directly inside an open tag, by what stands behind it: those that the longest front
of it writes out. -/
def ChildrenIn (after : List Token) (children : List Element) : Prop :=
  ∃ written rest, after = written ++ rest ∧ Linearises written children ∧
    ∀ longer rest' es, after = longer ++ rest' → Linearises longer es → longer <+: written

/-- `LeavesOpen tags opened`: the open tags of a stream that have no close tag in it are those of `opened`, first to
last, each with the elements that are complete directly inside it. -/
inductive LeavesOpen : List Token → List OpenElement → Prop
  | nil : LeavesOpen [] []
  | opened {name : String} {attributes : List Attribute} {position : Position} {tags : List Token}
    {children : List Element} {opened : List OpenElement} : ¬ ClosedIn name tags → ChildrenIn tags children.reverse →
      LeavesOpen tags opened →
        LeavesOpen (⟨.openTag name attributes, position⟩ :: tags) (⟨name, attributes, position, children⟩ :: opened)
  | closed {name : String} {attributes : List Attribute} {position : Position} {tags : List Token}
    {opened : List OpenElement} : ClosedIn name tags → LeavesOpen tags opened →
      LeavesOpen (⟨.openTag name attributes, position⟩ :: tags) opened
  | other {t : Token} {tags : List Token} {opened : List OpenElement} :
    (∀ name attributes, t.kind ≠ .openTag name attributes) → LeavesOpen tags opened → LeavesOpen (t :: tags) opened

theorem ChildrenIn.unique {after : List Token} {children children' : List Element} (h : ChildrenIn after children)
    (h' : ChildrenIn after children') : children = children' := by
  obtain ⟨written, rest, rfl, hwritten, hlongest⟩ := h
  obtain ⟨written', rest', ht, hwritten', hlongest'⟩ := h'
  have hfront := hlongest' _ _ _ rfl hwritten
  obtain rfl := hfront.eq_of_length_le (hlongest _ _ _ ht hwritten').length_le
  exact hwritten.unique hwritten'

theorem LeavesOpen.unique {opened opened' : List OpenElement} (h : LeavesOpen tags opened)
    (h' : LeavesOpen tags opened') : opened = opened' := by
  induction h generalizing opened' with
  | nil => cases h'; rfl
  | opened hopen hchildren _ ih =>
    cases h' with
    | opened _ hchildren' h' => rw [ih h', List.reverse_inj.1 (hchildren.unique hchildren')]
    | closed hclosed => exact absurd hclosed hopen
    | other hother => exact absurd rfl (hother _ _)
  | closed hclosed _ ih =>
    cases h' with
    | opened hopen => exact absurd hclosed hopen
    | closed _ h' => exact ih h'
    | other hother => exact absurd rfl (hother _ _)
  | other hother _ ih =>
    cases h' with
    | opened => exact absurd rfl (hother _ _)
    | closed => exact absurd rfl (hother _ _)
    | other _ h' => exact ih h'

/-- Complete elements leave nothing open. -/
theorem Linearises.leavesOpen {opened : List OpenElement} (h : Linearises tags es) (hmore : LeavesOpen more opened) :
    LeavesOpen (tags ++ more) opened := by
  induction h generalizing more with
  | nil => exact hmore
  | selfClosing _ ih => exact .other (fun _ _ hkind => by cases hkind) (ih hmore)
  | @element name attributes position closed inner tags children es hinner _ ihinner ih =>
    rw [List.cons_append, List.append_assoc, List.cons_append]
    refine .closed ⟨inner, children, closed, tags ++ more, hinner, rfl⟩ (ihinner ?_)
    exact .other (fun _ _ hkind => by cases hkind) (ih hmore)

end TagLint
