import Mathlib.Data.List.TakeWhile
import TagLint.Proofs.Text.Runs
import TagLint.Text.Blank
/-!
# Trimming

A text is trimmed to what stands between the blank characters at its ends (`trimChars_eq_iff`).
-/

namespace TagLint

/-- A word stands in a text between blank characters, and is not blank at either end itself. -/
def TrimsTo (text word : List Char) : Prop :=
  ∃ front back, text = front ++ word ++ back ∧ (∀ c ∈ front, isBlank c) ∧ (∀ c ∈ back, isBlank c) ∧
    (∀ c ∈ word.head?, isBlank c = false) ∧ ∀ c ∈ word.getLast?, isBlank c = false

theorem trimsTo_trimChars (text : List Char) : TrimsTo text (trimChars text) := by
  obtain ⟨hfront, hblank, hhead⟩ := (span_iff isBlank text _ _).1 ⟨rfl, rfl⟩
  obtain ⟨hback, hblank', hlast⟩ := (span_iff isBlank (text.dropWhile isBlank).reverse _ _).1 ⟨rfl, rfl⟩
  -- The blanks at the back are taken off the reversed text.
  have hbehind := congrArg List.reverse hback
  rw [List.reverse_reverse, List.reverse_append] at hbehind
  refine ⟨_, _, ?_, hblank, fun c hc => hblank' c (List.mem_reverse.1 hc), ?_, ?_⟩
  · unfold trimChars
    rw [List.append_assoc, ← hbehind, ← hfront]
  · intro c hc
    unfold trimChars at hc
    apply hhead
    rw [hbehind, List.head?_append, Option.mem_def.1 hc]
    rfl
  · intro c hc
    unfold trimChars at hc
    rw [List.getLast?_reverse] at hc
    exact hlast c hc

theorem TrimsTo.trimChars_eq {text word : List Char} (h : TrimsTo text word) : trimChars text = word := by
  obtain ⟨front, back, rfl, hfront, hback, hhead, hlast⟩ := h
  have hback' : ∀ c ∈ back.reverse, isBlank c := fun c hc => hback c (List.mem_reverse.1 hc)
  unfold trimChars
  rw [List.append_assoc, List.dropWhile_append_of_pos hfront]
  cases word with
  | nil =>
    rw [List.nil_append, List.dropWhile_eq_nil_iff.2 hback]
    rfl
  | cons c word =>
    have hlast' : ∀ d ∈ (c :: word).reverse.head?, isBlank d = false := by
      intro d hd
      apply hlast
      rwa [List.head?_reverse] at hd
    have hfirst : ¬ isBlank c := by
      rw [hhead c rfl]
      exact Bool.false_ne_true
    rw [List.cons_append, List.dropWhile_cons_of_neg hfirst, ← List.cons_append, List.reverse_append,
      ((span_iff isBlank _ back.reverse (c :: word).reverse).2 ⟨rfl, hback', hlast'⟩).2, List.reverse_reverse]

theorem trimChars_eq_iff {text word : List Char} : trimChars text = word ↔ TrimsTo text word := by
  constructor
  · rintro rfl
    exact trimsTo_trimChars text
  · exact TrimsTo.trimChars_eq

theorem trimChars_eq_nil_iff {text : List Char} : trimChars text = [] ↔ ∀ c ∈ text, isBlank c := by
  rw [trimChars_eq_iff]
  constructor
  · rintro ⟨front, back, rfl, hfront, hback, -⟩ c hc
    rw [List.append_nil] at hc
    rcases List.mem_append.1 hc with hc | hc
    · exact hfront c hc
    · exact hback c hc
  · intro h
    exact ⟨text, [], by simp, h, nofun, nofun, nofun⟩

theorem trimChars_ne_nil_iff {text : List Char} : trimChars text ≠ [] ↔ ∃ c ∈ text, isBlank c = false := by
  rw [ne_eq, trimChars_eq_nil_iff]
  simp only [not_forall, Bool.not_eq_true, exists_prop]

/-- What is trimmed off holds blank characters only. -/
theorem TrimsTo.notMem {text word : List Char} {c : Char} (h : TrimsTo text word) (hc : isBlank c = false)
    (hword : c ∉ word) : c ∉ text := by
  have hblank {space : List Char} (hspace : ∀ d ∈ space, isBlank d) : c ∉ space := by
    intro hmem
    rw [hspace c hmem] at hc
    cases hc
  obtain ⟨front, back, rfl, hfront, hback, -⟩ := h
  rw [List.mem_append, List.mem_append]
  rintro ((hmem | hmem) | hmem)
  · exact hblank hfront hmem
  · exact hword hmem
  · exact hblank hback hmem

end TagLint
