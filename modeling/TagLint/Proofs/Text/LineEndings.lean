import TagLint.Markup.Reference
import TagLint.Proofs.Text.Runs
/-!
# Texts in another style of line ends

`inStyle` ends the lines of a text in one of the three usual ways. The characters of line ends are alike to
everything that takes texts apart, and no mark holds one, so taking apart and changing the style commute.
-/

namespace TagLint

/-- How the lines of a text end. -/
inductive LineEnding where
  | lineFeed
  | returnAndFeed
  | carriageReturn
deriving DecidableEq

/-- The characters of one line end. -/
def LineEnding.text : LineEnding → List Char
  | .lineFeed => ['\n']
  | .returnAndFeed => ['\r', '\n']
  | .carriageReturn => ['\r']

/-- A text with each line feed written as a line end of the style. -/
def inStyle (style : LineEnding) (text : List Char) : List Char :=
  text.flatMap fun c => if c = '\n' then style.text else [c]

variable {style : LineEnding}

namespace LineEnding

theorem text_ne_nil : style.text ≠ [] := by
  cases style <;> simp [text]

theorem mem_text {c : Char} (h : c ∈ style.text) : c = '\r' ∨ c = '\n' := by
  cases style <;> simp_all [text]

end LineEnding

@[simp] theorem inStyle_nil : inStyle style [] = [] := rfl

theorem inStyle_feed (text : List Char) : inStyle style ('\n' :: text) = style.text ++ inStyle style text := rfl

@[simp] theorem inStyle_append (s t : List Char) : inStyle style (s ++ t) = inStyle style s ++ inStyle style t :=
  List.flatMap_append

theorem inStyle_cons {c : Char} (h : c ≠ '\n') (text : List Char) :
    inStyle style (c :: text) = c :: inStyle style text := by
  rw [inStyle, List.flatMap_cons, if_neg h]
  rfl

/-- Nothing changes in a text without line feeds. -/
theorem inStyle_of_notMem {text : List Char} (h : '\n' ∉ text) : inStyle style text = text := by
  induction text with
  | nil => rfl
  | cons c text ih =>
    simp only [List.mem_cons, not_or] at h
    rw [inStyle_cons (Ne.symm h.1), ih h.2]

@[simp] theorem inStyle_eq_nil_iff {text : List Char} : inStyle style text = [] ↔ text = [] := by
  cases text with
  | nil => simp
  | cons c text =>
    by_cases hc : c = '\n'
    · simp [hc, inStyle_feed, LineEnding.text_ne_nil]
    · simp [inStyle_cons hc]

theorem isEmpty_inStyle (text : List Char) : (inStyle style text).isEmpty = text.isEmpty := by
  rw [Bool.eq_iff_iff, List.isEmpty_iff, List.isEmpty_iff, inStyle_eq_nil_iff]

/-! ## Runs -/

section

variable {p : Char → Bool}

/-- A property that does not tell line ends apart holds all over a text in any style or in none. -/
theorem all_inStyle (hp : p '\r' = p '\n') (text : List Char) : (inStyle style text).all p = text.all p := by
  induction text with
  | nil => rfl
  | cons c text ih =>
    by_cases hc : c = '\n'
    · rw [hc, inStyle_feed, List.all_append, ih]
      cases style <;> simp [LineEnding.text, hp]
    · simp [inStyle_cons hc, ih]

theorem map_head?_inStyle (hp : p '\r' = p '\n') (text : List Char) :
    (inStyle style text).head?.map p = text.head?.map p := by
  cases text with
  | nil => rfl
  | cons c text =>
    by_cases hc : c = '\n'
    · rw [hc, inStyle_feed]
      cases style <;> simp [LineEnding.text, hp]
    · simp [inStyle_cons hc]

theorem span_inStyle (hp : p '\r' = p '\n') (text : List Char) :
    (inStyle style text).takeWhile p = inStyle style (text.takeWhile p) ∧
      (inStyle style text).dropWhile p = inStyle style (text.dropWhile p) := by
  obtain ⟨htext, hrun, hrest⟩ := (span_iff p text _ _).1 ⟨rfl, rfl⟩
  refine (span_iff p _ _ _).2 ⟨by rw [← inStyle_append, ← htext], ?_, fun c hc => ?_⟩
  · rw [← List.all_eq_true, all_inStyle hp]
    exact List.all_eq_true.2 hrun
  · have hhead := @map_head?_inStyle style p hp (text.dropWhile p)
    rw [Option.mem_def.1 hc] at hhead
    obtain ⟨d, hd, hpd⟩ := Option.map_eq_some_iff.1 hhead.symm
    rw [← hpd, hrest d hd]

theorem takeWhile_inStyle (hp : p '\r' = p '\n') (text : List Char) :
    (inStyle style text).takeWhile p = inStyle style (text.takeWhile p) :=
  (span_inStyle hp text).1

theorem dropWhile_inStyle (hp : p '\r' = p '\n') (text : List Char) :
    (inStyle style text).dropWhile p = inStyle style (text.dropWhile p) :=
  (span_inStyle hp text).2

end

/-! ## Marks -/

theorem after?_inStyle {mark : List Char} (hr : '\r' ∉ mark) (hn : '\n' ∉ mark) (text : List Char) :
    after? mark (inStyle style text) = (after? mark text).map (inStyle style) := by
  induction mark generalizing text with
  | nil => rfl
  | cons m mark ih =>
    simp only [List.mem_cons, not_or] at hr hn
    cases text with
    | nil => rfl
    | cons c text =>
      by_cases hc : c = '\n'
      · rw [hc, inStyle_feed]
        cases style <;> simp [LineEnding.text, after?, Ne.symm hr.1, Ne.symm hn.1]
      · rw [inStyle_cons hc, after?, after?, ih hr.2 hn.2]
        split <;> rfl

/-- Characters that begin no mark are passed over. -/
theorem splitFrom?_append {m : Char} {mark front : List Char} (h : m ∉ front) (read text : List Char) :
    splitFrom? (m :: mark) read (front ++ text) = splitFrom? (m :: mark) (front.reverse ++ read) text := by
  induction front generalizing read with
  | nil => rfl
  | cons c front ih =>
    simp only [List.mem_cons, not_or] at h
    rw [List.cons_append, splitFrom?, after?, if_neg h.1, ih h.2]
    simp

theorem splitAt?_inStyle {m : Char} {mark : List Char} (hr : '\r' ∉ m :: mark) (hn : '\n' ∉ m :: mark)
    (text : List Char) : splitAt? (m :: mark) (inStyle style text) =
      (splitAt? (m :: mark) text).map fun parts => (inStyle style parts.1, inStyle style parts.2) := by
  have hend : m ∉ style.text := by
    intro hm
    rcases LineEnding.mem_text hm with rfl | rfl
    · exact hr List.mem_cons_self
    · exact hn List.mem_cons_self
  have hfrom (read text : List Char) : splitFrom? (m :: mark) (inStyle style read.reverse).reverse (inStyle style text) =
      (splitFrom? (m :: mark) read text).map fun parts => (inStyle style parts.1, inStyle style parts.2) := by
    induction text generalizing read with
    | nil => rfl
    | cons c text ih =>
      have hread := ih (c :: read)
      rw [List.reverse_cons, inStyle_append, List.reverse_append] at hread
      by_cases hc : c = '\n'
      · subst hc
        have hm : m ∉ ['\n'] := fun h => hn (List.mem_singleton.1 h ▸ List.mem_cons_self)
        rw [inStyle_feed, inStyle_nil, List.append_nil] at hread
        rw [inStyle_feed, splitFrom?_append hend, hread]
        have hpassed : splitFrom? (m :: mark) read (['\n'] ++ text) = _ := splitFrom?_append hm read text
        exact congrArg _ hpassed.symm
      · have hafter := @after?_inStyle style _ hr hn (c :: text)
        rw [inStyle_cons hc] at hafter hread ⊢
        rw [splitFrom?, splitFrom?, hafter]
        cases after? (m :: mark) (c :: text) with
        | some rest => simp
        | none => exact hread
  simpa [splitAt?] using hfrom [] text

end TagLint
