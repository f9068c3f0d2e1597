import TagLint.Proofs.Nesting.Matching
/-!
# What is known between two tokens

However many faults a stream has, the builder keeps its tree: on the stack stand the open tags that have no close tag
yet, each with its complete children, and the root is the first element as soon as that is complete, whatever follows
(`Nesting.tracks_of_feedAll`).
-/

namespace TagLint

variable {tags more tokens : List Token} {es es' : List Element} {e : Element} {stack opened : List OpenElement}

/-! ## The first element -/

/-- The first element that begins among tags is complete there. -/
def FirstElement (tags : List Token) (e : Element) : Prop :=
  ∃ before written after, tags = before ++ written ++ after ∧ (∀ t ∈ before, t.begins? = none) ∧ Linearises written [e]

theorem FirstElement.append (h : FirstElement tags e) (more : List Token) : FirstElement (tags ++ more) e := by
  obtain ⟨before, written, after, rfl, hbefore, hwritten⟩ := h
  exact ⟨before, written, after ++ more, List.append_assoc _ _ _, hbefore, hwritten⟩

/-- An element that is written out begins with its own tag. -/
theorem Linearises.exists_cons (h : Linearises tags [e]) : ∃ t rest, tags = t :: rest ∧ t.begins? = some e.name := by
  cases h with
  | selfClosing => exact ⟨_, _, rfl, rfl⟩
  | element => exact ⟨_, _, rfl, rfl⟩

theorem FirstElement.firstName?_eq (h : FirstElement tags e) : firstName? tags = some e.name := by
  obtain ⟨before, written, after, rfl, hbefore, hwritten⟩ := h
  obtain ⟨t, rest, rfl, ht⟩ := hwritten.exists_cons
  rw [firstName?, List.append_assoc, List.findSome?_append, List.findSome?_eq_none_iff.2 hbefore, Option.none_or,
    List.cons_append, List.findSome?_cons, ht]

/-- Only tags begin elements. -/
theorem firstName?_filter (tokens : List Token) : firstName? (tokens.filter Token.isTag) = firstName? tokens := by
  have hbegins (t : Token) (ht : t.isTag = false) : t.begins? = none := by
    obtain ⟨kind, position⟩ := t
    cases kind with
    | comment | declaration | text => rfl
    | _ => cases ht
  unfold firstName?
  induction tokens with
  | nil => rfl
  | cons t tokens ih =>
    cases ht : t.isTag with
    | true => rw [List.filter_cons_of_pos ht, List.findSome?_cons, List.findSome?_cons, ih]
    | false => rw [List.filter_cons_of_neg (by rw [ht]; nofun), List.findSome?_cons, hbegins t ht, ih]

/-- What begins with a token that begins no element has its first element behind that token. -/
theorem firstElement_cons {t : Token} (ht : t.begins? = none) : FirstElement (t :: tags) e ↔ FirstElement tags e := by
  constructor
  · rintro ⟨before, written, after, hall, hbefore, hwritten⟩
    cases before with
    | nil =>
      obtain ⟨u, rest, rfl, hu⟩ := hwritten.exists_cons
      obtain ⟨rfl, -⟩ := List.cons.inj hall
      rw [ht] at hu
      cases hu
    | cons u before =>
      obtain ⟨rfl, rfl⟩ := List.cons.inj hall
      exact ⟨before, written, after, rfl, fun v hv => hbefore v (List.mem_cons_of_mem _ hv), hwritten⟩
  · rintro ⟨before, written, after, rfl, hbefore, hwritten⟩
    exact ⟨t :: before, written, after, rfl, List.forall_mem_cons.2 ⟨ht, hbefore⟩, hwritten⟩

/-- Where an element begins at once, it is the first. -/
theorem FirstElement.of_begins {t : Token} (h : FirstElement (t :: tags) e) (ht : t.begins? ≠ none) :
    ∃ written after, t :: tags = written ++ after ∧ Linearises written [e] := by
  obtain ⟨before, written, after, hall, hbefore, hwritten⟩ := h
  cases before with
  | nil => exact ⟨written, after, hall, hwritten⟩
  | cons u before =>
    obtain ⟨rfl, -⟩ := List.cons.inj hall
    exact absurd (hbefore t List.mem_cons_self) ht

/-- Two ways to write out an element at the front of the same tags write out the same one. -/
theorem Linearises.first_unique {written written' after after' : List Token} {e' : Element} (h : Linearises written [e])
    (h' : Linearises written' [e']) (ht : written ++ after = written' ++ after') : e = e' := by
  rcases List.append_eq_append_iff.1 ht with ⟨mid, rfl, -⟩ | ⟨mid, rfl, -⟩
  · obtain ⟨behind, heq, -⟩ := h.of_append h'
    exact (List.cons.inj heq).1.symm
  · obtain ⟨behind, heq, -⟩ := h'.of_append h
    exact (List.cons.inj heq).1

/-! ## Inside and outside of elements -/

/-- Tags with nothing open at their end: complete elements, and close tags without an open tag between them. -/
inductive Settled : List Token → List Element → Prop
  | nil : Settled [] []
  | stray {name : String} {position : Position} {tags : List Token} {es : List Element} : Settled tags es →
      Settled (⟨.closeTag name, position⟩ :: tags) es
  | element {written tags : List Token} {e : Element} {es : List Element} : Linearises written [e] → Settled tags es →
      Settled (written ++ tags) (e :: es)

/-- Tags that begin with an open tag that they leave open, if there are any. -/
inductive StaysOpen : List Token → Prop
  | nil : StaysOpen []
  | openTag {name : String} {attributes : List Attribute} {position : Position} {tags : List Token} :
    ClosesNothing tags → StaysOpen (⟨.openTag name attributes, position⟩ :: tags)

theorem StaysOpen.closesNothing (h : StaysOpen tags) : ClosesNothing tags := by
  cases h with
  | nil => exact closesNothing_nil
  | openTag h => exact h.openTag

/-- No element is complete at the front of tags that stay open. -/
theorem StaysOpen.eq_nil_of_linearises {written after : List Token} (h : StaysOpen tags) (ht : tags = written ++ after)
    (hwritten : Linearises written es) : written = [] := by
  cases hwritten with
  | nil => rfl
  | selfClosing =>
    rw [ht] at h
    cases h
  | @element name _ _ closed inner rest children _ hinner =>
    rw [ht, List.cons_append, List.append_assoc] at h
    cases h with
    | openTag h => exact absurd ⟨inner, children, closed, rest ++ after, hinner, rfl⟩ h.not_closedIn

theorem StaysOpen.not_firstElement (h : StaysOpen tags) : ¬ FirstElement tags e := by
  intro hfirst
  cases h with
  | nil => cases hfirst.firstName?_eq
  | openTag h =>
    obtain ⟨written, after, hall, hwritten⟩ := hfirst.of_begins nofun
    obtain rfl := (StaysOpen.openTag h).eq_nil_of_linearises hall hwritten
    cases hwritten

theorem Settled.append (h : Settled tags es) (hmore : Settled more es') : Settled (tags ++ more) (es ++ es') := by
  induction h with
  | nil => exact hmore
  | stray _ ih => exact .stray ih
  | element hwritten _ ih =>
    rw [List.append_assoc]
    exact .element hwritten ih

theorem Settled.leavesOpen (h : Settled tags es) (hmore : LeavesOpen more opened) : LeavesOpen (tags ++ more) opened := by
  induction h with
  | nil => exact hmore
  | stray _ ih => exact .other (fun _ _ hkind => by cases hkind) ih
  | element hwritten _ ih =>
    rw [List.append_assoc]
    exact hwritten.leavesOpen ih

/-- The first of the complete elements is the first of all. -/
theorem Settled.firstElement_iff (h : Settled tags es) (hmore : StaysOpen more) :
    FirstElement (tags ++ more) e ↔ es.head? = some e := by
  induction h with
  | nil => exact iff_of_false hmore.not_firstElement nofun
  | stray _ ih => exact (firstElement_cons rfl).trans ih
  | @element written tags e' es hwritten _ ih =>
    rw [List.append_assoc]
    constructor
    · intro hfirst
      obtain ⟨t, rest, rfl, ht⟩ := hwritten.exists_cons
      obtain ⟨written', after, hall, hwritten'⟩ := hfirst.of_begins (by rw [ht]; nofun)
      rw [hwritten.first_unique hwritten' hall]
      rfl
    · intro he
      obtain rfl := Option.some.inj he
      exact ⟨[], written, tags ++ more, by simp, nofun, hwritten⟩

/-- Before tags that stay open, complete elements are the children of an open tag. -/
theorem Linearises.childrenIn (h : Linearises tags es) (hmore : StaysOpen more) : ChildrenIn (tags ++ more) es := by
  refine ⟨tags, more, rfl, h, fun longer rest es' ht hlonger => ?_⟩
  rcases List.append_eq_append_iff.1 ht with ⟨mid, rfl, hmid⟩ | ⟨mid, rfl, -⟩
  · obtain ⟨behind, -, hbehind⟩ := h.of_append hlonger
    obtain rfl := hmore.eq_nil_of_linearises hmid hbehind
    simp
  · exact List.prefix_append _ _

/-- Elements that are unfinished leave their tags open, and so does what stays open behind them. -/
theorem Unfinished.leavesOpen (h : Unfinished tags [] stack) (hmore : StaysOpen more) (hopened : LeavesOpen more opened) :
    StaysOpen (tags ++ more) ∧ LeavesOpen (tags ++ more) (stack.reverse ++ opened) := by
  generalize hnone : ([] : List Element) = es at h
  -- From the innermost element outwards: what stays open behind an element goes inside it.
  induction h generalizing more opened with
  | complete h =>
    obtain rfl := hnone
    cases h
    exact ⟨hmore, hopened⟩
  | @inside name attributes position tags inner es children stack _ hinner ih =>
    have hnothing := hinner.closesNothing.append hmore.closesNothing
    have hinside : LeavesOpen (⟨.openTag name attributes, position⟩ :: (inner ++ more))
        (⟨name, attributes, position, children⟩ :: opened) :=
      .opened hnothing.not_closedIn (hinner.childrenIn hmore) (hinner.leavesOpen hopened)
    have hall := ih (.openTag hnothing) hinside hnone
    rwa [List.append_assoc, List.cons_append, List.reverse_cons, List.append_assoc]

namespace Nesting

variable {n n' : Nesting}

/-! ## One token, and all tokens -/

/-- What holds before the first of some tokens, and with each token taken, holds behind all of them. -/
theorem feedAll_keeps {P : Nesting → List Token → Prop}
    (hstep : ∀ {n n' : Nesting} {tokens : List Token} {t : Token}, P n tokens → n.feed t = .ok n' → P n' (tokens ++ [t]))
    (h : P n tokens) (hrun : (n.feedAll (more.map .ok)).1 = .ok n') : P n' (tokens ++ more) := by
  induction more generalizing n tokens with
  | nil =>
    obtain rfl := Except.ok.inj hrun
    rwa [List.append_nil]
  | cons t more ih =>
    simp only [List.map_cons, feedAll, feedItem] at hrun
    cases hf : n.feed t with
    | error faults =>
      rw [hf] at hrun
      cases hrun
    | ok next =>
      rw [hf] at hrun
      have hall := ih (hstep h hf) hrun
      rwa [List.append_assoc] at hall

/-- What the builder holds of the tags it took, whatever faults it found: some are settled, the first element of these
is the root, and those behind them are of elements still open, with their children so far. -/
def Keeps (n : Nesting) (tags : List Token) : Prop :=
  ∃ settled es inside, tags = settled ++ inside ∧ Settled settled es ∧ Unfinished inside [] n.stack ∧ n.root = es.head?

theorem keeps_start : start.Keeps [] := ⟨[], [], [], rfl, .nil, .complete .nil, rfl⟩

theorem Keeps.congr (h : n.Keeps tags) (hs : n'.stack = n.stack) (hr : n'.root = n.root) : n'.Keeps tags := by
  unfold Keeps
  rwa [hs, hr]

theorem beginElement_stack (n : Nesting) (name : String) (position : Position) :
    (n.beginElement name position).stack = n.stack := by
  unfold beginElement; split <;> rfl

theorem beginElement_root (n : Nesting) (name : String) (position : Position) :
    (n.beginElement name position).root = n.root := by
  unfold beginElement; split <;> rfl

theorem Keeps.beginElement (h : n.Keeps tags) (name : String) (position : Position) :
    (n.beginElement name position).Keeps tags :=
  h.congr (beginElement_stack n name position) (beginElement_root n name position)

/-- With nothing open all tags are settled. -/
theorem Keeps.settled (h : n.Keeps tags) (hs : n.stack = []) : ∃ es, Settled tags es ∧ n.root = es.head? := by
  obtain ⟨settled, es, inside, rfl, hsettled, hinside, hroot⟩ := h
  rw [hs] at hinside
  cases hinside with
  | complete hnone =>
    cases hnone
    exact ⟨es, by rwa [List.append_nil], hroot⟩

theorem keeps_of_settled (hs : n.stack = []) (h : Settled tags es) (hroot : n.root = es.head?) : n.Keeps tags := by
  refine ⟨tags, es, [], (List.append_nil _).symm, h, ?_, hroot⟩
  rw [hs]
  exact .complete .nil

/-- Inside an element, what stands behind its open tag are its children so far. -/
theorem Keeps.inside {parent : OpenElement} (h : n.Keeps tags) (hs : n.stack = parent :: stack) :
    ∃ outer inner, tags = outer ++ ⟨.openTag parent.name parent.attributes, parent.position⟩ :: inner ∧
      Linearises inner parent.children.reverse ∧ Keeps { n with stack } outer := by
  obtain ⟨settled, es, inside, rfl, hsettled, hinside, hroot⟩ := h
  rw [hs] at hinside
  cases hinside with
  | inside houter hinner =>
    exact ⟨settled ++ _, _, (List.append_assoc _ _ _).symm, hinner, settled, es, _, rfl, hsettled, houter, hroot⟩

theorem Keeps.push {outer inner : List Token} (h : n.Keeps outer) (parent : OpenElement)
    (hinner : Linearises inner parent.children.reverse) : Keeps { n with stack := parent :: n.stack }
      (outer ++ ⟨.openTag parent.name parent.attributes, parent.position⟩ :: inner) := by
  obtain ⟨settled, es, inside, rfl, hsettled, hinside, hroot⟩ := h
  exact ⟨settled, es, _, List.append_assoc _ _ _, hsettled, .inside hinside hinner, hroot⟩

/-- A complete element is settled, or one child more. -/
theorem Keeps.attach {written : List Token} (h : n.Keeps tags) (he : Linearises written [e]) :
    (n.attach e).Keeps (tags ++ written) := by
  unfold Nesting.attach
  split
  next parent rest hs =>
    obtain ⟨outer, inner, rfl, hinner, houter⟩ := h.inside hs
    rw [List.append_assoc]
    exact houter.push { parent with children := e :: parent.children } (hinner.concat he)
  next hs =>
    obtain ⟨es, hsettled, hroot⟩ := h.settled hs
    have hone : Settled written [e] := by
      rw [← List.append_nil written]
      exact .element he .nil
    refine keeps_of_settled hs (hsettled.append hone) ?_
    rw [hroot, List.head?_append]
    exact Option.orElse_eq_or

/-- Each token is taken without losing track of the tree. -/
theorem Keeps.feed {t : Token} (h : n.Keeps tags) (hf : n.feed t = .ok n') :
    n'.Keeps (tags ++ [t].filter Token.isTag) := by
  obtain ⟨kind, position⟩ := t
  cases kind with
  | comment | declaration =>
    obtain rfl := Except.ok.inj hf
    exact (List.append_nil tags).symm ▸ h
  | text content cdata =>
    obtain rfl := Except.ok.inj hf
    have hkeeps := (List.append_nil tags).symm ▸ h
    split
    next => exact hkeeps.congr rfl rfl
    next => exact hkeeps
  | openTag name attributes =>
    obtain rfl := Except.ok.inj hf
    exact (h.beginElement name position).push ⟨name, attributes, position, []⟩ .nil
  | selfClosingTag name attributes =>
    obtain rfl := Except.ok.inj hf
    exact (h.beginElement name position).attach (.selfClosing .nil)
  | closeTag name =>
    simp only [Nesting.feed, Nesting.close] at hf
    split at hf
    next hs =>
      obtain rfl := Except.ok.inj hf
      obtain ⟨es, hsettled, hroot⟩ := h.settled hs
      have hstray := hsettled.append (.stray .nil : Settled [⟨.closeTag name, position⟩] [])
      rw [List.append_nil] at hstray
      exact keeps_of_settled hs hstray hroot
    next parent rest hs =>
      split at hf
      next hname =>
        obtain rfl := Except.ok.inj hf
        obtain rfl := hname
        obtain ⟨outer, inner, rfl, hinner, houter⟩ := h.inside hs
        rw [List.append_assoc]
        exact houter.attach (.element hinner .nil)
      next => cases hf

/-! ## What is held, said of the tags alone -/

theorem Keeps.root_iff (h : n.Keeps tags) : n.root = some e ↔ FirstElement tags e := by
  obtain ⟨settled, es, inside, rfl, hsettled, hinside, hroot⟩ := h
  have hstays := (hinside.leavesOpen .nil .nil).1
  rw [List.append_nil] at hstays
  rw [hroot]
  exact (hsettled.firstElement_iff hstays).symm

theorem Keeps.leavesOpen (h : n.Keeps tags) : LeavesOpen tags n.stack.reverse := by
  obtain ⟨settled, es, inside, rfl, hsettled, hinside, -⟩ := h
  have hopened := (hinside.leavesOpen .nil .nil).2
  rw [List.append_nil, List.append_nil] at hopened
  exact hsettled.leavesOpen hopened

theorem Keeps.leavesOpen_iff (h : n.Keeps tags) : LeavesOpen tags opened ↔ opened = n.stack.reverse := by
  constructor
  · exact fun hopened => hopened.unique h.leavesOpen
  · rintro rfl
    exact h.leavesOpen

theorem Keeps.feedAll (h : n.Keeps (tokens.filter Token.isTag)) (hrun : (n.feedAll (more.map .ok)).1 = .ok n') :
    n'.Keeps ((tokens ++ more).filter Token.isTag) := by
  refine feedAll_keeps (P := fun n tokens => n.Keeps (tokens.filter Token.isTag)) (fun h hf => ?_) h hrun
  rw [List.filter_append]
  exact h.feed hf

/-! ## Main theorem -/

/-- What is known between two tokens, said of the tokens taken so far. -/
structure Tracks (n : Nesting) (tokens : List Token) : Prop where
  /-- On the stack are exactly the open tags without a close tag, each with its complete children. -/
  stack : ∀ opened, LeavesOpen (tokens.filter Token.isTag) opened ↔ opened = n.stack.reverse
  rootName : n.rootName = firstName? tokens
  /-- The root is the first element, as soon as it is complete. -/
  root : ∀ e, n.root = some e ↔ FirstElement (tokens.filter Token.isTag) e
  named : ∀ e, n.root = some e → n.rootName = some e.name
  /-- With nothing open the first element is complete, if there is one. -/
  together : n.stack = [] → (n.root = none ↔ n.rootName = none)
  /-- Whatever follows, the root stays. -/
  stays : ∀ (more : List Token) (n' : Nesting), (n.feedAll (more.map .ok)).1 = .ok n' →
    ∀ e, n.root = some e → n'.root = some e

/-- Whatever tokens the builder took without stopping, faulty or not, it has kept track of them. -/
theorem tracks_of_feedAll (h : (start.feedAll (tokens.map .ok)).1 = .ok n) : n.Tracks tokens := by
  have hstart : start.Keeps ([].filter Token.isTag) := keeps_start
  have hkeeps : n.Keeps (tokens.filter Token.isTag) := hstart.feedAll h
  have hreflects : n.Reflects tokens := feedAll_keeps Reflects.feed reflects_start h
  refine ⟨fun _ => hkeeps.leavesOpen_iff, hreflects.rootName, fun _ => hkeeps.root_iff, ?_, hreflects.root, ?_⟩
  · intro e he
    rw [hreflects.rootName, ← firstName?_filter]
    exact (hkeeps.root_iff.1 he).firstName?_eq
  · -- The first element of the tokens taken is that of all tokens.
    intro more n' hmore e he
    have hall := hkeeps.feedAll hmore
    rw [List.filter_append] at hall
    exact hall.root_iff.2 ((hkeeps.root_iff.1 he).append _)

/-- A close tag too many, a complete element, and two open tags behind it. -/
theorem tracks_of_feedAll_second_root :
    let tokens : List Token := [⟨.closeTag "x", ⟨1, 1, 0⟩⟩, ⟨.openTag "a" [], ⟨1, 5, 4⟩⟩,
      ⟨.selfClosingTag "b" [], ⟨1, 8, 7⟩⟩, ⟨.closeTag "a", ⟨1, 12, 11⟩⟩,
      ⟨.openTag "c" [⟨"k", "v", ⟨1, 19, 18⟩⟩], ⟨1, 16, 15⟩⟩, ⟨.text "t" false, ⟨1, 26, 25⟩⟩,
      ⟨.selfClosingTag "b" [], ⟨1, 27, 26⟩⟩, ⟨.openTag "c" [], ⟨1, 31, 30⟩⟩]
    ∃ n : Nesting, (start.feedAll (tokens.map .ok)).1 = .ok n ∧ n.Tracks tokens ∧
      n.stack.map OpenElement.tag = [⟨"c", [], ⟨1, 31, 30⟩⟩, ⟨"c", [⟨"k", "v", ⟨1, 19, 18⟩⟩], ⟨1, 16, 15⟩⟩] ∧
      n.stack.map (fun e => e.children.map Element.name) = [[], ["b"]] ∧ n.root.map Element.name = some "a" := by
  intro tokens
  exact ⟨_, rfl, tracks_of_feedAll rfl, rfl, rfl, rfl⟩

end Nesting

end TagLint
