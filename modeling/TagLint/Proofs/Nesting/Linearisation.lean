import TagLint.Proofs.Nesting.Faults
/-!
# Accepted streams and trees

The tags of a document are one tree written out: each element as its open tag, its children in order and its
close tag, or as one self-closing tag (`Linearises`). A stream is accepted with a tree exactly if its tags
write out that tree and with nothing open it holds no text but spaces (`checkWellFormed_eq_ok_iff_linearises`).
-/

namespace TagLint

/-! ## Trees written out -/

/-- Tags that write out elements one behind the other. -/
inductive Linearises : List Token → List Element → Prop
  | nil : Linearises [] []
  | selfClosing {name : String} {attributes : List Attribute} {position : Position} {tags : List Token}
    {es : List Element} : Linearises tags es →
      Linearises (⟨.selfClosingTag name attributes, position⟩ :: tags) (⟨name, attributes, [], position⟩ :: es)
  | element {name : String} {attributes : List Attribute} {position closed : Position} {inner tags : List Token}
    {children es : List Element} : Linearises inner children → Linearises tags es →
      Linearises (⟨.openTag name attributes, position⟩ :: (inner ++ ⟨.closeTag name, closed⟩ :: tags))
        (⟨name, attributes, children, position⟩ :: es)

/-- With nothing open a stream holds no text but spaces. -/
def BlankOutside (tokens : List Token) : Prop :=
  ∀ before content cdata position after, tokens = before ++ ⟨.text content cdata, position⟩ :: after →
    openTags before = [] → Token.isBlank ⟨.text content cdata, position⟩ = true

theorem Linearises.append {tags more : List Token} {es es' : List Element} (h : Linearises tags es)
    (h' : Linearises more es') : Linearises (tags ++ more) (es ++ es') := by
  induction h with
  | nil => exact h'
  | selfClosing _ ih => exact .selfClosing ih
  | element hinner _ _ ih =>
    rw [List.cons_append, List.append_assoc]
    exact .element hinner ih

theorem Linearises.concat {tags written : List Token} {es : List Element} {e : Element}
    (h : Linearises tags es.reverse) (he : Linearises written [e]) :
    Linearises (tags ++ written) (e :: es).reverse := by
  rw [List.reverse_cons]
  exact h.append he

/-- Tags that write out elements leave open what was open before them. -/
theorem Linearises.foldl_nest {tags : List Token} {es : List Element} (h : Linearises tags es) (opened : List OpenTag) :
    tags.foldl Token.nest opened = opened := by
  induction h generalizing opened with
  | nil => rfl
  | selfClosing _ ih => exact ih opened
  | element _ _ ihinner ih =>
    rw [List.foldl_cons, List.foldl_append, ihinner, List.foldl_cons]
    exact ih opened

/-- Tags behind which some elements are complete, and others still open with their children so far. -/
inductive Unfinished : List Token → List Element → List OpenElement → Prop
  | complete {tags : List Token} {es : List Element} : Linearises tags es → Unfinished tags es []
  | inside {name : String} {attributes : List Attribute} {position : Position} {tags inner : List Token}
    {es children : List Element} {stack : List OpenElement} : Unfinished tags es stack →
      Linearises inner children.reverse →
      Unfinished (tags ++ ⟨.openTag name attributes, position⟩ :: inner) es
        (⟨name, attributes, position, children⟩ :: stack)

namespace Nesting

/-! ## From the stream to the tree -/

/-- What the builder holds of the tokens taken so far if no fault was found: they are its elements written
out, and the first element is not complete while something is open. -/
structure Assembles (n : Nesting) (tokens : List Token) : Prop where
  unfinished : Unfinished (tokens.filter Token.isTag) n.root.toList n.stack
  root : n.stack ≠ [] → n.root = none

theorem assembles_start : start.Assembles [] := ⟨.complete .nil, fun h => absurd rfl h⟩

/-- A complete element becomes the root, or the last child of the innermost open element. -/
theorem attach_unfinished {n : Nesting} {e : Element} {tags written : List Token}
    (h : Unfinished tags [] n.stack) (hroot : n.root = none) (he : Linearises written [e]) :
    Unfinished (tags ++ written) (n.attach e).root.toList (n.attach e).stack ∧
      ((n.attach e).stack ≠ [] → (n.attach e).root = none) := by
  obtain ⟨stack, root, rootName, faults⟩ := n
  obtain rfl : root = none := hroot
  cases h with
  | complete h => exact ⟨.complete (h.append he), fun hne => absurd rfl hne⟩
  | inside h hinner =>
    refine ⟨?_, fun _ => rfl⟩
    rw [List.append_assoc, List.cons_append]
    exact .inside h (hinner.concat he)

/-- Where an element begins without fault, no element is complete. -/
theorem Assembles.root_eq_none {n : Nesting} {tokens : List Token} {t : Token} {name : String}
    (hr : n.Reflects tokens) (h : n.Assembles tokens) (ht : t.begins? = some name)
    (hok : recoveredFault? tokens t = none) : n.root = none := by
  refine Decidable.byContradiction fun hne => ?_
  have hs : n.stack = [] := Decidable.byContradiction fun hs => hne (h.root hs)
  have hfirst : firstName? tokens ≠ none := by
    rw [← hr.rootName]
    exact fun hn => hne ((hr.root hs).2 hn)
  obtain ⟨root, hroot⟩ := Option.ne_none_iff_exists'.1 hfirst
  obtain ⟨kind, position⟩ := t
  cases kind with
  | openTag | selfClosingTag => simp [recoveredFault?, hr.openTags_eq_nil_iff.2 hs, hroot] at hok
  | _ => cases ht

/-- A token without fault is added to what is assembled. -/
theorem Assembles.feed {n n' : Nesting} {tokens : List Token} {t : Token} (hr : n.Reflects tokens)
    (h : n.Assembles tokens) (hf : n.feed t = .ok n') (hok : recoveredFault? tokens t = none) :
    n'.Assembles (tokens ++ [t]) := by
  have hunfinished := h.unfinished
  have hnone {name : String} (ht : t.begins? = some name) := h.root_eq_none hr ht hok
  suffices hsuff : Unfinished (tokens.filter Token.isTag ++ [t].filter Token.isTag) n'.root.toList n'.stack ∧
      (n'.stack ≠ [] → n'.root = none) by
    refine ⟨?_, hsuff.2⟩
    rw [List.filter_append]
    exact hsuff.1
  obtain ⟨kind, position⟩ := t
  cases kind with
  | comment | declaration =>
    obtain rfl := Except.ok.inj hf
    exact ⟨by simpa [Token.isTag] using hunfinished, h.root⟩
  | text content cdata =>
    obtain rfl := Except.ok.inj hf
    rw [apply_ite Nesting.root, apply_ite Nesting.stack]
    simp only [report, ite_self]
    exact ⟨by simpa [Token.isTag] using hunfinished, h.root⟩
  | openTag name attributes =>
    obtain ⟨hs, hroot, -, -⟩ := hr.beginElement (t := ⟨.openTag name attributes, position⟩) rfl
    obtain rfl := Except.ok.inj hf
    have hn := hroot.trans (hnone rfl)
    rw [hnone rfl, ← hs] at hunfinished
    refine ⟨?_, fun _ => hn⟩
    show Unfinished _ (n.beginElement name position).root.toList _
    rw [hn]
    exact .inside hunfinished .nil
  | selfClosingTag name attributes =>
    obtain ⟨hs, hroot, -, -⟩ := hr.beginElement (t := ⟨.selfClosingTag name attributes, position⟩) rfl
    obtain rfl := Except.ok.inj hf
    rw [hnone rfl, ← hs] at hunfinished
    exact attach_unfinished hunfinished (hroot.trans (hnone rfl)) (.selfClosing .nil)
  | closeTag name =>
    simp only [Nesting.feed, Nesting.close] at hf
    split at hf
    next hs => simp [recoveredFault?, hr.openTags_eq_nil_iff.2 hs] at hok
    next e stack hs =>
      split at hf
      next hname =>
        obtain rfl := Except.ok.inj hf
        have hn : n.root = none := h.root (by rw [hs]; simp)
        rw [hs, hn] at hunfinished
        generalize tokens.filter Token.isTag = tags at hunfinished ⊢
        cases hunfinished with
        | inside houter hinner =>
          obtain rfl := hname
          rw [List.append_assoc]
          exact attach_unfinished (n := { n with stack }) houter hn (.element hinner .nil)
      next => cases hf

/-- What is assembled of a stream without fault. -/
theorem Assembles.feedAll {n n' : Nesting} {tokens more : List Token} {rest : List TokenItem}
    (hr : n.Reflects tokens) (h : n.Assembles tokens) (hrun : n.feedAll (more.map .ok) = (.ok n', rest))
    (hok : recoveredFrom tokens more = []) : n'.Assembles (tokens ++ more) := by
  induction more generalizing n tokens with
  | nil =>
    obtain rfl := Except.ok.inj (congrArg Prod.fst hrun)
    simpa using h
  | cons t more ih =>
    -- No fault of the rest is taken back, so this token has none either.
    obtain ⟨ht, hmore⟩ := List.append_eq_nil_iff.1 hok
    simp only [List.map_cons, Nesting.feedAll, feedItem] at hrun
    cases hf : n.feed t with
    | error faults =>
      rw [hf] at hrun
      cases hrun
    | ok next =>
      rw [hf] at hrun
      have hadded := ih (hr.feed hf) (h.feed hr hf (Option.toList_eq_nil_iff.1 ht)) hrun hmore
      rwa [List.append_assoc] at hadded

end Nesting

theorem blankOutside_of_recovered_eq_nil {tokens : List Token} (h : recovered tokens = []) : BlankOutside tokens := by
  intro before content cdata position after htokens hopen
  rw [htokens, recovered, recoveredFrom_append, recoveredFrom] at h
  have ht := Option.toList_eq_nil_iff.1 (List.append_eq_nil_iff.1 (List.append_eq_nil_iff.1 h).2).1
  simpa [recoveredFault?, hopen] using ht

theorem Scan.eq_map {before tokens : List Token} {items rest : List TokenItem} (h : Scan before items tokens none rest) :
    items = tokens.map .ok := by
  generalize hstop : (none : Option NestingFault) = stop? at h
  induction h with
  | exhausted => rfl
  | stopped => cases hstop
  | taken _ _ ih => rw [List.map_cons, ih hstop]

/-- The stream of an accepted document is its tree written out. -/
theorem linearises_of_checkWellFormed {items : List TokenItem} {root : Element} (h : checkWellFormed items = .ok root) :
    ∃ tokens, items = tokens.map .ok ∧ BlankOutside tokens ∧ Linearises (tokens.filter Token.isTag) [root] := by
  obtain ⟨tokens, stop?, rest, hs⟩ := exists_scan [] items
  obtain ⟨n, hn, hrun⟩ := Nesting.reflects_start.feedAll hs
  rw [List.nil_append] at hn
  unfold checkWellFormed buildTree at h
  rw [hrun] at h
  cases stop? with
  | some fault => cases h
  | none =>
    obtain rfl := hs.eq_map
    simp only [Option.elim_none, Nesting.finish] at h
    split at h
    next root' hroot hfaults =>
      obtain rfl := Except.ok.inj h
      rw [hn.finalFaults_eq, streamFaults, List.append_eq_nil_iff] at hfaults
      -- Nothing is wrong anywhere, so nothing is open at the end and what is assembled is the root alone.
      obtain ⟨hrecovered, hfinal⟩ := hfaults
      have hassembles := Nesting.assembles_start.feedAll Nesting.reflects_start hrun hrecovered
      have hopen : openTags tokens = [] := by
        simpa [finalFaults] using (List.append_eq_nil_iff.1 hfinal).1
      have hunfinished := hassembles.unfinished
      rw [hn.openTags_eq_nil_iff.1 hopen, hroot, List.nil_append] at hunfinished
      refine ⟨tokens, rfl, blankOutside_of_recovered_eq_nil hrecovered, ?_⟩
      generalize tokens.filter Token.isTag = tags at hunfinished ⊢
      cases hunfinished with
      | complete hwritten => exact hwritten
    next => cases h

/-! ## From the tree to the stream -/

namespace Nesting

/-- A token that is no tag changes nothing, unless it is text with nothing open. -/
theorem feed_of_not_isTag {n : Nesting} {t : Token} (ht : t.isTag = false)
    (hblank : n.stack = [] → ∀ content cdata, t.kind = .text content cdata → t.isBlank = true) :
    n.feed t = .ok n := by
  obtain ⟨kind, position⟩ := t
  cases kind with
  | comment | declaration => rfl
  | openTag | selfClosingTag | closeTag => cases ht
  | text content cdata =>
    have hin : (n.stack.isEmpty && !Token.isBlank ⟨.text content cdata, position⟩) = false := by
      cases hs : n.stack with
      | nil => simp [hblank hs content cdata rfl]
      | cons => rfl
    simp only [feed, hin]
    rfl

/-- Only the tags of a stream matter, if it holds no text with nothing open. -/
theorem Reflects.feedAll_filter {n : Nesting} {before tokens : List Token} (h : n.Reflects before)
    (hblank : BlankOutside (before ++ tokens)) :
    (n.feedAll (tokens.map .ok)).1 = (n.feedAll ((tokens.filter Token.isTag).map .ok)).1 := by
  induction tokens generalizing n before with
  | nil => rfl
  | cons t tokens ih =>
    have hstep {next : Nesting} (hf : n.feed t = .ok next) :
        (next.feedAll (tokens.map .ok)).1 = (next.feedAll ((tokens.filter Token.isTag).map .ok)).1 := by
      refine ih (h.feed hf) ?_
      rwa [List.append_assoc]
    cases ht : t.isTag with
    | true =>
      rw [List.filter_cons_of_pos ht]
      simp only [List.map_cons, Nesting.feedAll, feedItem]
      cases hf : n.feed t with
      | ok next => exact hstep hf
      | error faults => rfl
    | false =>
      have hf : n.feed t = .ok n := by
        refine feed_of_not_isTag ht fun hs content cdata hk => ?_
        obtain ⟨kind, position⟩ := t
        obtain rfl : kind = .text content cdata := hk
        exact hblank before content cdata position tokens rfl (h.openTags_eq_nil_iff.2 hs)
      rw [List.filter_cons_of_neg (by simp [ht])]
      simp only [List.map_cons, Nesting.feedAll, feedItem, hf]
      exact hstep hf

/-- Elements written out inside an open element become its next children. -/
theorem feedAll_of_linearises {tags : List Token} {es : List Element} (h : Linearises tags es)
    (root : Option Element) (rootName : Option String) (faults : List NestingFault) (e : OpenElement)
    (stack : List OpenElement) (items : List TokenItem) :
    Nesting.feedAll ⟨e :: stack, root, rootName, faults⟩ (tags.map .ok ++ items) =
      Nesting.feedAll ⟨{ e with children := es.reverse ++ e.children } :: stack, root, rootName, faults⟩ items := by
  -- By induction on how the tags are written: what is inside an element is fed with that element on top of the
  -- stack, what follows it with the element around it.
  induction h generalizing e stack items with
  | nil => rfl
  | @selfClosing name attributes position tags es _ ih =>
    have hfeed : Nesting.feed ⟨e :: stack, root, rootName, faults⟩ ⟨.selfClosingTag name attributes, position⟩ =
        .ok ⟨{ e with children := ⟨name, attributes, [], position⟩ :: e.children } :: stack, root, rootName, faults⟩ :=
      rfl
    rw [List.map_cons, List.cons_append, Nesting.feedAll]
    simp only [feedItem, hfeed]
    rw [ih, List.reverse_cons, List.append_assoc]
    rfl
  | @element name attributes position closed inner tags children es _ _ ihinner ih =>
    have hopen : Nesting.feed ⟨e :: stack, root, rootName, faults⟩ ⟨.openTag name attributes, position⟩ =
        .ok ⟨⟨name, attributes, position, []⟩ :: e :: stack, root, rootName, faults⟩ := rfl
    have hclose : Nesting.feed ⟨⟨name, attributes, position, children.reverse⟩ :: e :: stack, root, rootName, faults⟩
        ⟨.closeTag name, closed⟩ = .ok ⟨{ e with children := ⟨name, attributes, children, position⟩ :: e.children } ::
          stack, root, rootName, faults⟩ := by
      simp [Nesting.feed, Nesting.close, attach, OpenElement.close]
    rw [List.map_cons, List.cons_append, Nesting.feedAll]
    simp only [feedItem, hopen]
    rw [List.map_append, List.append_assoc, ihinner, List.append_nil, List.map_cons, List.cons_append, Nesting.feedAll]
    simp only [feedItem, hclose]
    rw [ih, List.reverse_cons, List.append_assoc]
    rfl

/-- One element written out with nothing open becomes the root. -/
theorem feedAll_start_of_linearises {tags : List Token} {root : Element} (h : Linearises tags [root]) :
    start.feedAll (tags.map .ok) = (.ok ⟨[], some root, some root.name, []⟩, []) := by
  cases h with
  | selfClosing hrest => cases hrest; rfl
  | @element name attributes position closed inner _ children _ hinner hrest =>
    cases hrest
    have hopen : start.feed ⟨.openTag name attributes, position⟩ =
        .ok ⟨[⟨name, attributes, position, []⟩], none, some name, []⟩ := rfl
    have hclose : Nesting.feed ⟨[⟨name, attributes, position, children.reverse⟩], none, some name, []⟩
        ⟨.closeTag name, closed⟩ = .ok ⟨[], some ⟨name, attributes, children, position⟩, some name, []⟩ := by
      simp [Nesting.feed, Nesting.close, attach, OpenElement.close]
    rw [List.map_cons, Nesting.feedAll]
    simp only [feedItem, hopen]
    rw [List.map_append, feedAll_of_linearises hinner, List.append_nil, List.map_cons, Nesting.feedAll]
    simp only [feedItem, hclose]
    rfl

end Nesting

/-- A tree written out is accepted as that tree. -/
theorem checkWellFormed_of_linearises {tokens : List Token} {root : Element} (hblank : BlankOutside tokens)
    (h : Linearises (tokens.filter Token.isTag) [root]) : checkWellFormed (tokens.map .ok) = .ok root := by
  have hrun : (Nesting.start.feedAll (tokens.map .ok)).1 = _ := Nesting.reflects_start.feedAll_filter hblank
  rw [Nesting.feedAll_start_of_linearises h] at hrun
  unfold checkWellFormed buildTree
  generalize Nesting.start.feedAll (tokens.map .ok) = result at hrun ⊢
  obtain ⟨n, rest⟩ := result
  obtain rfl : n = _ := hrun
  rfl

/-- A stream is accepted with a tree exactly if it is an error-free stream of tokens, text of other than spaces
stands only inside an element, and its tags are the tree written out; and tags write out one tree at most. -/
theorem checkWellFormed_eq_ok_iff_linearises :
    (∀ (items : List TokenItem) (root : Element), checkWellFormed items = .ok root ↔
      ∃ tokens, items = tokens.map .ok ∧ BlankOutside tokens ∧ Linearises (tokens.filter Token.isTag) [root]) ∧
    ∀ (tags : List Token) (root root' : Element), Linearises tags [root] → Linearises tags [root'] → root = root' := by
  constructor
  · intro items root
    constructor
    · exact linearises_of_checkWellFormed
    · rintro ⟨tokens, rfl, hblank, h⟩
      exact checkWellFormed_of_linearises hblank h
  · intro tags root root' h h'
    have hrun := Nesting.feedAll_start_of_linearises h
    rw [Nesting.feedAll_start_of_linearises h'] at hrun
    have hroot := congrArg Nesting.root (Except.ok.inj (congrArg Prod.fst hrun))
    exact (Option.some.inj hroot).symm

end TagLint
