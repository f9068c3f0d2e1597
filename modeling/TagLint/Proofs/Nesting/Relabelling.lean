import TagLint.Markup.Tokenize
import TagLint.Markup.Nesting
/-!
# What the tree does not depend on

Names are all that the nesting of tags looks at in them. Of a place it uses what is displayed of it, and of text
whether it is blank. A change of the rest changes the tree and the findings accordingly and nothing else
(`checkWellFormed_relabel`).
-/

namespace TagLint

/-- A change of places and texts that leaves what is displayed of a place and which texts are blank. -/
structure Relabelling where
  place : Position → Position
  text : String → String
  display_place (p : Position) : (place p).display = p.display
  place_start : place .start = .start
  all_isSpace_text (s : String) : (text s).toList.all isSpace = s.toList.all isSpace

/-! ## Tokens, elements and findings -/

variable (r : Relabelling)

def Attribute.relabel (a : Attribute) : Attribute := ⟨a.name, r.text a.value, r.place a.position⟩

def TokenKind.relabel : TokenKind → TokenKind
  | .openTag name attributes => .openTag name (attributes.map (Attribute.relabel r))
  | .selfClosingTag name attributes => .selfClosingTag name (attributes.map (Attribute.relabel r))
  | .closeTag name => .closeTag name
  | .comment body => .comment (r.text body)
  | .declaration body => .declaration (r.text body)
  | .text content cdata => .text (r.text content) cdata

def Token.relabel (t : Token) : Token := ⟨t.kind.relabel r, r.place t.position⟩

def SyntaxError.relabel (e : SyntaxError) : SyntaxError := { e with position := r.place e.position }

def TokenItem.relabel : TokenItem → TokenItem
  | .ok t => .ok (t.relabel r)
  | .error e => .error (e.relabel r)

def Element.relabel (e : Element) : Element :=
  ⟨e.name, e.attributes.map (Attribute.relabel r), e.children.map Element.relabel, r.place e.position⟩
decreasing_by
  obtain ⟨name, attributes, children, position⟩ := e
  rename_i h
  have := List.sizeOf_lt_of_mem h
  simp at this ⊢
  omega

def NestingFault.relabel : NestingFault → NestingFault
  | .syntaxError e => .syntaxError (e.relabel r)
  | .textOutsideRoot position => .textOutsideRoot (r.place position)
  | .secondRoot name root position => .secondRoot name root (r.place position)
  | .closeWithoutOpen name position => .closeWithoutOpen name (r.place position)
  | .mismatchedClose expected found opened position =>
    .mismatchedClose expected found (r.place opened) (r.place position)
  | .unclosed name position => .unclosed name (r.place position)
  | .noRoot => .noRoot

def Diagnostic.relabel (d : Diagnostic) : Diagnostic := { d with position := d.position.map r.place }

namespace NestingFault

theorem position_relabel (f : NestingFault) : (f.relabel r).position = r.place f.position := by
  cases f with
  | noRoot => exact r.place_start.symm
  | _ => rfl

theorem message_relabel (f : NestingFault) : (f.relabel r).message = f.message := by
  cases f with
  | mismatchedClose =>
    unfold relabel message
    simp only [r.display_place]
  | _ => rfl

theorem diagnostic_relabel (f : NestingFault) : (f.relabel r).diagnostic = f.diagnostic.relabel r := by
  rw [diagnostic, position_relabel, message_relabel]
  rfl

end NestingFault

theorem Token.isBlank_relabel (t : Token) : (t.relabel r).isBlank = t.isBlank := by
  obtain ⟨kind, position⟩ := t
  cases kind with
  | text content cdata =>
    cases cdata with
    | false => exact r.all_isSpace_text content
    | true => rfl
  | _ => rfl

/-! ## The builder -/

def OpenElement.relabel (e : OpenElement) : OpenElement :=
  ⟨e.name, e.attributes.map (Attribute.relabel r), r.place e.position, e.children.map (Element.relabel r)⟩

theorem OpenElement.close_relabel (e : OpenElement) : (e.relabel r).close = e.close.relabel r := by
  rw [Element.relabel]
  simp [close, relabel]

namespace Nesting

def relabel (n : Nesting) : Nesting where
  stack := n.stack.map (OpenElement.relabel r)
  root := n.root.map (Element.relabel r)
  rootName := n.rootName
  faults := n.faults.map (NestingFault.relabel r)

theorem beginElement_relabel (n : Nesting) (name : String) (position : Position) :
    (n.relabel r).beginElement name (r.place position) = (n.beginElement name position).relabel r := by
  obtain ⟨stack, root, rootName, faults⟩ := n
  cases stack <;> cases rootName <;> rfl

theorem attach_relabel (n : Nesting) (e : Element) : (n.relabel r).attach (e.relabel r) = (n.attach e).relabel r := by
  obtain ⟨stack, root, rootName, faults⟩ := n
  cases stack with
  | nil => cases root <;> rfl
  | cons => rfl

/-- What a step comes to when its token is relabelled. -/
def relabelResult (result : Except (List NestingFault) Nesting) : Except (List NestingFault) Nesting :=
  (result.map (relabel r)).mapError (List.map (NestingFault.relabel r))

theorem close_relabel (n : Nesting) (name : String) (position : Position) :
    (n.relabel r).close name (r.place position) = relabelResult r (n.close name position) := by
  obtain ⟨stack, root, rootName, faults⟩ := n
  cases stack with
  | nil => rfl
  | cons e stack =>
    simp only [close, relabel, List.map_cons]
    by_cases h : e.name = name
    · have h' : (e.relabel r).name = name := h
      rw [if_pos h, if_pos h', OpenElement.close_relabel]
      exact congrArg Except.ok (attach_relabel r ⟨stack, root, rootName, faults⟩ e.close)
    · have h' : (e.relabel r).name ≠ name := h
      rw [if_neg h, if_neg h']
      rfl

theorem feed_relabel (n : Nesting) (t : Token) : (n.relabel r).feed (t.relabel r) = relabelResult r (n.feed t) := by
  have hblank := t.isBlank_relabel r
  obtain ⟨kind, position⟩ := t
  cases kind with
  | comment | declaration => rfl
  | text content cdata =>
    have hempty : (n.relabel r).stack.isEmpty = n.stack.isEmpty := List.isEmpty_map
    have hfeed : (n.relabel r).feed (Token.relabel r ⟨.text content cdata, position⟩) =
        .ok (if n.stack.isEmpty && !Token.isBlank ⟨.text content cdata, position⟩ then
          (n.relabel r).report (.textOutsideRoot (r.place position)) else n.relabel r) := by
      rw [← hblank, ← hempty]
      rfl
    rw [hfeed, feed]
    split <;> rfl
  | openTag name attributes =>
    have hbegin := beginElement_relabel r n name position
    simp only [feed, Token.relabel, TokenKind.relabel, hbegin]
    rfl
  | selfClosingTag name attributes =>
    have hbegin := beginElement_relabel r n name position
    have he : Element.relabel r ⟨name, attributes, [], position⟩ =
        ⟨name, attributes.map (Attribute.relabel r), [], r.place position⟩ := by
      rw [Element.relabel]
      rfl
    simp only [feed, Token.relabel, TokenKind.relabel, hbegin, ← he, attach_relabel]
    rfl
  | closeTag name => exact close_relabel r n name position

theorem feedItem_relabel (n : Nesting) (item : TokenItem) :
    (n.relabel r).feedItem (item.relabel r) = relabelResult r (n.feedItem item) := by
  cases item with
  | ok t => exact feed_relabel r n t
  | error e => rfl

theorem feedAll_relabel (n : Nesting) (items : List TokenItem) :
    ((n.relabel r).feedAll (items.map (TokenItem.relabel r))).1 = relabelResult r (n.feedAll items).1 := by
  induction items generalizing n with
  | nil => rfl
  | cons item items ih =>
    rw [List.map_cons, feedAll, feedAll, feedItem_relabel]
    cases n.feedItem item with
    | ok next => exact ih next
    | error faults => rfl

theorem finalFaults_relabel (n : Nesting) :
    (n.relabel r).finalFaults = n.finalFaults.map (NestingFault.relabel r) := by
  have hend : ((n.relabel r).root.isNone && (n.relabel r).stack.isEmpty) = (n.root.isNone && n.stack.isEmpty) := by
    simp [relabel]
  have hunclosed : (n.relabel r).stack.reverse.map (fun e => NestingFault.unclosed e.name e.position) =
      (n.stack.reverse.map fun e => NestingFault.unclosed e.name e.position).map (NestingFault.relabel r) := by
    simp [relabel, Function.comp_def, NestingFault.relabel, OpenElement.relabel]
  have hfaults : (n.relabel r).faults.reverse = n.faults.reverse.map (NestingFault.relabel r) := by
    rw [List.map_reverse]
    rfl
  rw [finalFaults, finalFaults, hunclosed, hend, hfaults, List.map_append, List.map_append]
  congr 1
  split <;> rfl

theorem finish_relabel (n : Nesting) : (n.relabel r).finish =
    (n.finish.map (Element.relabel r)).mapError (List.map (NestingFault.relabel r)) := by
  have hroot : (n.relabel r).root = n.root.map (Element.relabel r) := rfl
  rw [finish, finish, finalFaults_relabel, hroot]
  cases n.root <;> cases n.finalFaults <;> rfl

end Nesting

/-- A relabelled stream is accepted with the relabelled tree, or refused for the same findings, relabelled. -/
theorem checkWellFormed_relabel (items : List TokenItem) :
    checkWellFormed (items.map (TokenItem.relabel r)) =
      ((checkWellFormed items).map (Element.relabel r)).mapError (List.map (Diagnostic.relabel r)) := by
  have hrun := Nesting.feedAll_relabel r .start items
  have hstart : Nesting.start.relabel r = .start := rfl
  rw [hstart] at hrun
  have htree : (buildTree (items.map (TokenItem.relabel r))).1 =
      ((buildTree items).1.map (Element.relabel r)).mapError (List.map (NestingFault.relabel r)) := by
    unfold buildTree
    generalize Nesting.start.feedAll (items.map (TokenItem.relabel r)) = result' at hrun ⊢
    generalize Nesting.start.feedAll items = result at hrun ⊢
    obtain ⟨n, rest⟩ := result
    obtain ⟨n', rest'⟩ := result'
    obtain rfl : n' = _ := hrun
    cases n with
    | ok n => exact n.finish_relabel r
    | error faults => exact congrArg Except.error List.map_reverse.symm
  rw [checkWellFormed, htree, checkWellFormed]
  cases (buildTree items).1 with
  | ok root => rfl
  | error faults =>
    refine congrArg Except.error ?_
    simp [Function.comp_def, NestingFault.diagnostic_relabel]

end TagLint
