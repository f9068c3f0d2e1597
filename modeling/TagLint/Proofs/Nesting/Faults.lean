import Mathlib.Data.List.Forall2
import TagLint.Markup.Tokenize
import TagLint.Proofs.Nesting.OpenTags
/-!
# The faults of a rejected stream

A stream is looked at up to the first item that ends the scan (`Scan`). What is reported are the faults of
the tokens before that item, in order, and then the fault of that item, or else what is wrong at the end of
the stream (`checkWellFormed_faults`). Each kind of fault has its place and its words (`NestingFault.ReportedAs`).
-/

namespace TagLint

/-! ## Where the scan ends -/

/-- Whether an item ends the scan behind tokens, and with which fault: an error does, and a close tag of
another element than the innermost open one. -/
inductive EndsScan (before : List Token) : TokenItem → NestingFault → Prop
  | syntaxError (e : SyntaxError) : EndsScan before (.error e) (.syntaxError e)
  | mismatchedClose {e : OpenTag} {rest : List OpenTag} {name : String} {position : Position} :
    openTags before = e :: rest → e.name ≠ name →
      EndsScan before (.ok ⟨.closeTag name, position⟩) (.mismatchedClose e.name name e.position position)

/-- `Scan before items tokens stop? rest`: behind the tokens `before`, the items are `tokens`, none of which
ends the scan, up to the first item that does, with the fault `stop?`, and the items `rest` behind that one. -/
inductive Scan : List Token → List TokenItem → List Token → Option NestingFault → List TokenItem → Prop
  | exhausted {before : List Token} : Scan before [] [] none []
  | stopped {before : List Token} {item : TokenItem} {rest : List TokenItem} {fault : NestingFault} :
    EndsScan before item fault → Scan before (item :: rest) [] (some fault) rest
  | taken {before tokens : List Token} {t : Token} {items rest : List TokenItem} {stop? : Option NestingFault} :
    (∀ fault, ¬ EndsScan before (.ok t) fault) → Scan (before ++ [t]) items tokens stop? rest →
      Scan before (.ok t :: items) (t :: tokens) stop? rest

theorem EndsScan.unique {before : List Token} {item : TokenItem} {fault fault' : NestingFault}
    (h : EndsScan before item fault) (h' : EndsScan before item fault') : fault = fault' := by
  cases h with
  | syntaxError e => cases h'; rfl
  | mismatchedClose hopen =>
    cases h' with
    | mismatchedClose hopen' =>
      obtain ⟨rfl, -⟩ := List.cons.inj (hopen.symm.trans hopen')
      rfl

/-- A token goes on with the scan unless it closes another element than the innermost open one. -/
theorem not_endsScan {before : List Token} {t : Token}
    (h : ∀ name, t.kind = .closeTag name → ∀ e ∈ (openTags before).head?, e.name = name) (fault : NestingFault) :
    ¬ EndsScan before (.ok t) fault := by
  intro hends
  cases hends with
  | mismatchedClose hopen hname => exact hname (h _ rfl _ (by rw [hopen, List.head?_cons, Option.mem_some]))

theorem exists_scan (before : List Token) (items : List TokenItem) :
    ∃ tokens stop? rest, Scan before items tokens stop? rest := by
  induction items generalizing before with
  | nil => exact ⟨[], none, [], .exhausted⟩
  | cons item items ih =>
    by_cases hends : ∃ fault, EndsScan before item fault
    · obtain ⟨fault, hf⟩ := hends
      exact ⟨[], some fault, items, .stopped hf⟩
    · cases item with
      | error e => exact absurd ⟨_, .syntaxError e⟩ hends
      | ok t =>
        obtain ⟨tokens, stop?, rest, h⟩ := ih (before ++ [t])
        exact ⟨t :: tokens, stop?, rest, .taken (fun fault hf => hends ⟨fault, hf⟩) h⟩

theorem Scan.unique {before tokens tokens' : List Token} {items rest rest' : List TokenItem}
    {stop? stop?' : Option NestingFault} (h : Scan before items tokens stop? rest)
    (h' : Scan before items tokens' stop?' rest') : tokens = tokens' ∧ stop? = stop?' ∧ rest = rest' := by
  induction h generalizing tokens' with
  | exhausted => cases h'; exact ⟨rfl, rfl, rfl⟩
  | stopped hf =>
    cases h' with
    | stopped hf' => exact ⟨rfl, by rw [hf.unique hf'], rfl⟩
    | taken hgo => exact absurd hf (hgo _)
  | taken hgo _ ih =>
    cases h' with
    | stopped hf' => exact absurd hf' (hgo _)
    | taken _ h' =>
      obtain ⟨rfl, rfl, rfl⟩ := ih h'
      exact ⟨rfl, rfl, rfl⟩

/-! ## What is wrong -/

/-- What is wrong at the end of a stream: each tag still open, outermost first, or that no element began. -/
def finalFaults (tokens : List Token) : List NestingFault :=
  (openTags tokens).reverse.map (fun e => .unclosed e.name e.position)
    ++ if firstName? tokens = none then [.noRoot] else []

/-- All that is wrong with a stream of which tokens were taken up to where the scan stopped. -/
def streamFaults (tokens : List Token) : Option NestingFault → List NestingFault
  | some fault => recovered tokens ++ [fault]
  | none => recovered tokens ++ finalFaults tokens

/-! ## What is reported -/

/-- The finding for a fault: where it stands and what it says. It stands at the token that is wrong, for an element that
is never closed at its open tag, and for a missing root at the first character. -/
inductive NestingFault.ReportedAs : NestingFault → Diagnostic → Prop
  | syntaxError (e : SyntaxError) : ReportedAs (.syntaxError e) ⟨.malformedSyntax, some e.position, e.message, none⟩
  | textOutsideRoot (position : Position) : ReportedAs (.textOutsideRoot position)
      ⟨.malformedSyntax, some position, "text is not allowed outside the root element", none⟩
  | secondRoot (name root : String) (position : Position) : ReportedAs (.secondRoot name root position)
      ⟨.malformedSyntax, some position, s!"multiple root elements: <{name}> appears after root element <{root}>", none⟩
  | closeWithoutOpen (name : String) (position : Position) : ReportedAs (.closeWithoutOpen name position)
      ⟨.malformedSyntax, some position, s!"unexpected close tag </{name}> with no open element", none⟩
  | mismatchedClose (expected found : String) (line column offset : Nat) (position : Position) :
      ReportedAs (.mismatchedClose expected found ⟨line, column, offset⟩ position)
        ⟨.malformedSyntax, some position,
          s!"mismatched close tag: expected </{expected}>, found </{found}> (<{expected}> opened at {line}:{column})", none⟩
  | unclosed (name : String) (position : Position) : ReportedAs (.unclosed name position)
      ⟨.malformedSyntax, some position, s!"unclosed tag <{name}>", none⟩
  | noRoot : ReportedAs .noRoot ⟨.malformedSyntax, some ⟨1, 1, 0⟩, "document has no root element", none⟩

/-- The place of the open tag, which the program writes first, in one text with the rest. -/
theorem NestingFault.message_mismatchedClose (expected found : String) (opened position : Position) :
    message (.mismatchedClose expected found opened position) =
      s!"mismatched close tag: expected </{expected}>, found </{found}> (<{expected}> opened at {opened.line}:{opened.column})" := by
  have hplace : opened.display = s!"{opened.line}:{opened.column}" := rfl
  have htext (text : String) : toString text = text := rfl
  show s!"mismatched close tag: expected </{expected}>, found </{found}> (<{expected}> opened at {opened.display})" = _
  simp only [hplace, htext, String.append_assoc]

theorem NestingFault.reportedAs_diagnostic (f : NestingFault) : f.ReportedAs f.diagnostic := by
  cases f with
  | syntaxError e => exact .syntaxError e
  | textOutsideRoot position => exact .textOutsideRoot position
  | secondRoot name root position => exact .secondRoot name root position
  | closeWithoutOpen name position => exact .closeWithoutOpen name position
  | mismatchedClose expected found opened position =>
    rw [diagnostic, message_mismatchedClose]
    exact .mismatchedClose expected found opened.line opened.column opened.offset position
  | unclosed name position => exact .unclosed name position
  | noRoot => exact .noRoot

theorem NestingFault.ReportedAs.unique {f : NestingFault} {d d' : Diagnostic} (h : f.ReportedAs d)
    (h' : f.ReportedAs d') : d = d' := by
  cases h <;> cases h' <;> rfl

theorem NestingFault.reportedAs_iff {f : NestingFault} {d : Diagnostic} : f.ReportedAs d ↔ f.diagnostic = d :=
  ⟨f.reportedAs_diagnostic.unique, fun h => h ▸ f.reportedAs_diagnostic⟩

/-- One finding for each fault, in their order. -/
theorem forall₂_reportedAs_iff {faults : List NestingFault} {ds : List Diagnostic} :
    List.Forall₂ NestingFault.ReportedAs faults ds ↔ ds = faults.map NestingFault.diagnostic := by
  rw [eq_comm, ← List.forall₂_eq_eq_eq, List.forall₂_map_left_iff]
  simp only [← NestingFault.reportedAs_iff]

namespace Nesting

/-- With a token that does not end the scan the builder goes on. -/
theorem Reflects.feed_of_not_endsScan {n : Nesting} {tokens : List Token} {t : Token} (h : n.Reflects tokens)
    (ht : ∀ fault, ¬ EndsScan tokens (.ok t) fault) : ∃ n', n.feed t = .ok n' ∧ n'.Reflects (tokens ++ [t]) := by
  cases hf : n.feed t with
  | ok n' => exact ⟨n', rfl, h.feed hf⟩
  | error faults =>
    -- The builder refuses close tags only, and only one of another element than the innermost.
    obtain ⟨kind, position⟩ := t
    cases kind with
    | closeTag name =>
      simp only [Nesting.feed, Nesting.close] at hf
      split at hf
      next => cases hf
      next e rest hs =>
        split at hf
        next => cases hf
        next hname =>
          have hopen : openTags tokens = e.tag :: rest.map OpenElement.tag := by rw [← h.stack, hs]; rfl
          exact absurd (.mismatchedClose hopen hname) (ht _)
    | _ => cases hf

/-- With an item that ends the scan it fails. -/
theorem Reflects.feedItem_of_endsScan {n : Nesting} {tokens : List Token} {item : TokenItem} {fault : NestingFault}
    (h : n.Reflects tokens) (hi : EndsScan tokens item fault) : n.feedItem item = .error (fault :: n.faults) := by
  cases hi with
  | syntaxError e => rfl
  | mismatchedClose hopen hname =>
    rw [← h.stack] at hopen
    obtain ⟨top, below, hs, rfl, -⟩ := List.map_eq_cons_iff.1 hopen
    simp only [feedItem, Nesting.feed, Nesting.close, hs]
    have hname' : top.name ≠ _ := hname
    rw [if_neg hname']
    rfl

/-- The builder takes the tokens that the scan takes, and stops where the scan stops. -/
theorem Reflects.feedAll {n : Nesting} {before tokens : List Token} {items rest : List TokenItem}
    {stop? : Option NestingFault} (h : n.Reflects before) (hs : Scan before items tokens stop? rest) :
    ∃ n' : Nesting, n'.Reflects (before ++ tokens) ∧
      n.feedAll items = (stop?.elim (.ok n') fun fault => .error (fault :: n'.faults), rest) := by
  induction hs generalizing n with
  | exhausted => exact ⟨n, by simpa using h, rfl⟩
  | stopped hf =>
    refine ⟨n, by simpa using h, ?_⟩
    simp only [Nesting.feedAll, h.feedItem_of_endsScan hf, Option.elim_some]
  | taken hgo _ ih =>
    obtain ⟨next, hf, hnext⟩ := h.feed_of_not_endsScan hgo
    obtain ⟨n', hn', hrun⟩ := ih hnext
    refine ⟨n', by simpa using hn', ?_⟩
    rw [Nesting.feedAll]
    simp only [feedItem, hf]
    exact hrun

theorem Reflects.finalFaults_eq {n : Nesting} {tokens : List Token} (h : n.Reflects tokens) :
    n.finalFaults = streamFaults tokens none := by
  have hunclosed : n.stack.reverse.map (fun e => NestingFault.unclosed e.name e.position) =
      (openTags tokens).reverse.map (fun e => .unclosed e.name e.position) := by
    rw [← h.stack, ← List.map_reverse, List.map_map]
    rfl
  have hroot : (n.root.isNone && n.stack.isEmpty) = true ↔ firstName? tokens = none := by
    simp only [Bool.and_eq_true, Option.isNone_iff_eq_none, List.isEmpty_iff, ← h.rootName]
    constructor
    · rintro ⟨hr, hs⟩
      exact (h.root hs).1 hr
    · intro hn
      have hs := h.openTags_eq_nil_iff.1 (openTags_of_firstName?_eq_none (h.rootName ▸ hn))
      exact ⟨(h.root hs).2 hn, hs⟩
  simp only [Nesting.finalFaults, streamFaults, TagLint.finalFaults, h.faults, hunclosed, hroot, List.append_assoc]

/-- The end of a stream is refused exactly if something is wrong. -/
theorem Reflects.finish_eq_error_iff {n : Nesting} {tokens : List Token} (h : n.Reflects tokens)
    (faults : List NestingFault) :
    n.finish = .error faults ↔ faults ≠ [] ∧ faults = streamFaults tokens none := by
  rw [← h.finalFaults_eq, Nesting.finish]
  split
  next root hr hf =>
    rw [hf]
    constructor
    · intro he
      cases he
    · rintro ⟨hne, rfl⟩
      exact absurd rfl hne
  next hnot =>
    -- Without a complete root something is wrong: a tag is still open, or there was none.
    have hne : n.finalFaults ≠ [] := by
      intro hf
      cases hr : n.root with
      | some root => exact hnot root hr hf
      | none => simp [Nesting.finalFaults, hr] at hf
    constructor
    · intro he
      obtain rfl := Except.error.inj he
      exact ⟨hne, rfl⟩
    · rintro ⟨-, rfl⟩
      rfl

end Nesting

/-- What a stream is reported for, and what of it is not looked at. -/
theorem buildTree_eq {items rest : List TokenItem} {tokens : List Token} {stop? : Option NestingFault}
    (hs : Scan [] items tokens stop? rest) (faults : List NestingFault) :
    (buildTree items).2 = rest ∧
      ((buildTree items).1 = .error faults ↔ faults ≠ [] ∧ faults = streamFaults tokens stop?) := by
  obtain ⟨n, hn, hrun⟩ := Nesting.reflects_start.feedAll hs
  rw [List.nil_append] at hn
  unfold buildTree
  rw [hrun]
  cases stop? with
  | some fault =>
    have hall : streamFaults tokens (some fault) = (fault :: n.faults).reverse := by
      rw [List.reverse_cons, hn.faults]
      rfl
    rw [hall]
    refine ⟨rfl, fun he => ?_, fun he => by rw [he.2]; rfl⟩
    obtain rfl : (fault :: n.faults).reverse = faults := Except.error.inj he
    exact ⟨by simp, rfl⟩
  | none => exact ⟨rfl, hn.finish_eq_error_iff faults⟩

/-- A stream is refused exactly if something is wrong with it, and reported for that. -/
theorem checkWellFormed_eq_error_iff {items rest : List TokenItem} {tokens : List Token} {stop? : Option NestingFault}
    (hs : Scan [] items tokens stop? rest) (ds : List Diagnostic) :
    checkWellFormed items = .error ds ↔
      streamFaults tokens stop? ≠ [] ∧ ds = (streamFaults tokens stop?).map NestingFault.diagnostic := by
  have hfaults (faults : List NestingFault) := (buildTree_eq hs faults).2
  unfold checkWellFormed
  cases hb : (buildTree items).1 with
  | ok root =>
    -- An accepted stream has no fault: its faults would be what it is refused for.
    constructor
    · intro he
      cases he
    · rintro ⟨hne, -⟩
      have he := (hfaults _).2 ⟨hne, rfl⟩
      rw [hb] at he
      cases he
  | error faults =>
    obtain ⟨hne, rfl⟩ := (hfaults faults).1 hb
    constructor
    · intro he
      exact ⟨hne, (Except.error.inj he).symm⟩
    · rintro ⟨-, rfl⟩
      rfl

theorem streamFaults_of_checkWellFormed {items : List TokenItem} {ds : List Diagnostic}
    (h : checkWellFormed items = .error ds) : ∃ tokens stop? rest, Scan [] items tokens stop? rest ∧
      streamFaults tokens stop? ≠ [] ∧ ds = (streamFaults tokens stop?).map NestingFault.diagnostic := by
  obtain ⟨tokens, stop?, rest, hs⟩ := exists_scan [] items
  exact ⟨tokens, stop?, rest, hs, (checkWellFormed_eq_error_iff hs ds).1 h⟩

theorem ne_nil_of_checkWellFormed {items : List TokenItem} {ds : List Diagnostic}
    (h : checkWellFormed items = .error ds) : ds ≠ [] := by
  obtain ⟨tokens, stop?, rest, -, hne, rfl⟩ := streamFaults_of_checkWellFormed h
  exact mt List.map_eq_nil_iff.1 hne

/-- The items of a stream are looked at up to the first that ends the scan. A stream is refused exactly if
something is wrong with it, and then with one finding for each fault, in the order of the stream, that tells of this
fault where it is and what is wrong. -/
theorem checkWellFormed_faults (items : List TokenItem) :
    ∃ tokens stop? rest, Scan [] items tokens stop? rest ∧
      (∀ tokens' stop?' rest', Scan [] items tokens' stop?' rest' →
        tokens' = tokens ∧ stop?' = stop? ∧ rest' = rest) ∧
      (buildTree items).2 = rest ∧
      ∀ ds, checkWellFormed items = .error ds ↔
        ds ≠ [] ∧ (∀ d ∈ ds, d.kind = .malformedSyntax ∧ d.rule = none) ∧
          List.Forall₂ NestingFault.ReportedAs (streamFaults tokens stop?) ds := by
  obtain ⟨tokens, stop?, rest, hs⟩ := exists_scan [] items
  refine ⟨tokens, stop?, rest, hs, fun _ _ _ hs' => hs'.unique hs, (buildTree_eq hs []).1, fun ds => ?_⟩
  rw [checkWellFormed_eq_error_iff hs, forall₂_reportedAs_iff]
  constructor
  · rintro ⟨hne, rfl⟩
    refine ⟨mt List.map_eq_nil_iff.1 hne, fun d hd => ?_, rfl⟩
    obtain ⟨fault, -, rfl⟩ := List.mem_map.1 hd
    exact ⟨rfl, rfl⟩
  · rintro ⟨hne, -, rfl⟩
    exact ⟨mt List.map_eq_nil_iff.2 hne, rfl⟩

/-- Each kind of fault. Blank text is none unless it is a section, and in the first text the tag that closes another
element ends the scan, so that the error behind it is not looked at. -/
theorem checkWellFormed_faults_of_each_kind :
    let mixed := " \n<![CDATA[ ]]></y><a/><b><c></d>&"
    let bare := "'&' must start a reference terminated by ';' (use &amp; for a literal '&')"
    let rest : List TokenItem := [.error ⟨⟨2, 32, 33⟩, bare⟩]
    (buildTree (tokenize mixed)).2 = rest ∧
      checkWellFormed (tokenize mixed) = .error [
        ⟨.malformedSyntax, some ⟨2, 1, 2⟩, "text is not allowed outside the root element", none⟩,
        ⟨.malformedSyntax, some ⟨2, 14, 15⟩, "unexpected close tag </y> with no open element", none⟩,
        ⟨.malformedSyntax, some ⟨2, 22, 23⟩, "multiple root elements: <b> appears after root element <a>", none⟩,
        ⟨.malformedSyntax, some ⟨2, 28, 29⟩,
          "mismatched close tag: expected </c>, found </d> (<c> opened at 2:25)", none⟩] ∧
      checkWellFormed (tokenize "</a>&") = .error [
        ⟨.malformedSyntax, some ⟨1, 1, 0⟩, "unexpected close tag </a> with no open element", none⟩,
        ⟨.malformedSyntax, some ⟨1, 5, 4⟩, bare, none⟩] ∧
      checkWellFormed (tokenize "<a>x<b></b><c>") = .error [
        ⟨.malformedSyntax, some ⟨1, 1, 0⟩, "unclosed tag <a>", none⟩,
        ⟨.malformedSyntax, some ⟨1, 12, 11⟩, "unclosed tag <c>", none⟩] ∧
      checkWellFormed (tokenize "") = .error [
        ⟨.malformedSyntax, some ⟨1, 1, 0⟩, "document has no root element", none⟩] := by
  intro mixed bare rest
  have report {items rest : List TokenItem} {tokens : List Token} {stop? : Option NestingFault} {ds : List Diagnostic}
      (hs : Scan [] items tokens stop? rest) (hne : ds ≠ []) (hd : ∀ d ∈ ds, d.kind = .malformedSyntax ∧ d.rule = none)
      (hr : List.Forall₂ NestingFault.ReportedAs (streamFaults tokens stop?) ds) :
      (buildTree items).2 = rest ∧ checkWellFormed items = .error ds := by
    obtain ⟨tokens', stop?', rest', -, hunique, hrest, hiff⟩ := checkWellFormed_faults items
    obtain ⟨rfl, rfl, rfl⟩ := hunique _ _ _ hs
    exact ⟨hrest, (hiff ds).2 ⟨hne, hd, hr⟩⟩
  have hmixed : Scan [] (tokenize mixed)
      [⟨.text " \n" false, ⟨1, 1, 0⟩⟩, ⟨.text " " true, ⟨2, 1, 2⟩⟩, ⟨.closeTag "y", ⟨2, 14, 15⟩⟩,
        ⟨.selfClosingTag "a" [], ⟨2, 18, 19⟩⟩, ⟨.openTag "b" [], ⟨2, 22, 23⟩⟩, ⟨.openTag "c" [], ⟨2, 25, 26⟩⟩]
      (some (.mismatchedClose "c" "d" ⟨2, 25, 26⟩ ⟨2, 28, 29⟩)) rest := by
    have htext : tokenize mixed = [
        .ok ⟨.text " \n" false, ⟨1, 1, 0⟩⟩, .ok ⟨.text " " true, ⟨2, 1, 2⟩⟩, .ok ⟨.closeTag "y", ⟨2, 14, 15⟩⟩,
        .ok ⟨.selfClosingTag "a" [], ⟨2, 18, 19⟩⟩, .ok ⟨.openTag "b" [], ⟨2, 22, 23⟩⟩, .ok ⟨.openTag "c" [], ⟨2, 25, 26⟩⟩,
        .ok ⟨.closeTag "d", ⟨2, 28, 29⟩⟩, .error ⟨⟨2, 32, 33⟩, bare⟩] := by decide +kernel
    rw [htext]
    iterate 6 refine .taken (not_endsScan (by simp [openTags, Token.nest])) ?_
    exact .stopped (@EndsScan.mismatchedClose _ ⟨"c", [], ⟨2, 25, 26⟩⟩ _ _ _ rfl (by decide))
  have herror : Scan [] (tokenize "</a>&") [⟨.closeTag "a", ⟨1, 1, 0⟩⟩] (some (.syntaxError ⟨⟨1, 5, 4⟩, bare⟩)) [] := by
    have htext : tokenize "</a>&" = [.ok ⟨.closeTag "a", ⟨1, 1, 0⟩⟩, .error ⟨⟨1, 5, 4⟩, bare⟩] := by decide +kernel
    rw [htext]
    exact .taken (not_endsScan (by simp [openTags])) (.stopped (.syntaxError _))
  have hopened : Scan [] (tokenize "<a>x<b></b><c>")
      [⟨.openTag "a" [], ⟨1, 1, 0⟩⟩, ⟨.text "x" false, ⟨1, 4, 3⟩⟩, ⟨.openTag "b" [], ⟨1, 5, 4⟩⟩,
        ⟨.closeTag "b", ⟨1, 8, 7⟩⟩, ⟨.openTag "c" [], ⟨1, 12, 11⟩⟩] none [] := by
    have htext : tokenize "<a>x<b></b><c>" = [
        .ok ⟨.openTag "a" [], ⟨1, 1, 0⟩⟩, .ok ⟨.text "x" false, ⟨1, 4, 3⟩⟩, .ok ⟨.openTag "b" [], ⟨1, 5, 4⟩⟩,
        .ok ⟨.closeTag "b", ⟨1, 8, 7⟩⟩, .ok ⟨.openTag "c" [], ⟨1, 12, 11⟩⟩] := by decide +kernel
    rw [htext]
    iterate 5 refine .taken (not_endsScan (by simp [openTags, Token.nest])) ?_
    exact .exhausted
  have hempty : Scan [] (tokenize "") [] none [] := by
    have htext : tokenize "" = [] := by decide +kernel
    rw [htext]
    exact .exhausted
  obtain ⟨hrest, hds⟩ := report hmixed (List.cons_ne_nil _ _) (by simp)
    (.cons (.textOutsideRoot _) (.cons (.closeWithoutOpen "y" _)
      (.cons (.secondRoot "b" "a" _) (.cons (.mismatchedClose "c" "d" 2 25 26 _) .nil))))
  have herror := (report herror (List.cons_ne_nil _ _) (by simp)
    (.cons (.closeWithoutOpen "a" _) (.cons (.syntaxError _) .nil))).2
  have hopened := (report hopened (List.cons_ne_nil _ _) (by simp)
    (.cons (.unclosed "a" _) (.cons (.unclosed "c" _) .nil))).2
  have hempty := (report hempty (List.cons_ne_nil _ _) (by simp) (.cons .noRoot .nil)).2
  exact ⟨hrest, hds, herror, hopened, hempty⟩

end TagLint
