/-!
# Taking texts apart

Constructs of a text begin with a fixed mark and end at the first place where another one stands. Both
operations take a text apart without loss: `after?_eq_some_iff` and `splitAt?_eq`. Lists of entries are
split at each separator.
-/

namespace TagLint

/-- What follows `mark` at the front of a text, if the text begins with it. -/
def after? : (mark text : List Char) → Option (List Char)
  | [], text => some text
  | _ :: _, [] => none
  | m :: mark, c :: text => if m = c then after? mark text else none

theorem after?_eq_some_iff {mark text rest : List Char} :
    after? mark text = some rest ↔ text = mark ++ rest := by
  induction mark generalizing text with
  | nil => simp [after?]
  | cons m mark ih =>
    cases text with
    | nil => simp [after?]
    | cons c text =>
      by_cases h : m = c
      · simp [after?, h, ih]
      · simp [after?, h, Ne.symm h]

/-- Takes a text apart at the first place where `mark` stands; `read` holds what was passed, last first. -/
def splitFrom? (mark read : List Char) : List Char → Option (List Char × List Char)
  | [] => none
  | c :: text =>
    match after? mark (c :: text) with
    | some rest => some (read.reverse, rest)
    | none => splitFrom? mark (c :: read) text

/-- What stands before and behind the first occurrence of a mark. -/
def splitAt? (mark text : List Char) : Option (List Char × List Char) := splitFrom? mark [] text

theorem splitFrom?_eq {mark read text before rest : List Char}
    (h : splitFrom? mark read text = some (before, rest)) : read.reverse ++ text = before ++ mark ++ rest := by
  induction text generalizing read with
  | nil => simp [splitFrom?] at h
  | cons c text ih =>
    simp only [splitFrom?] at h
    split at h
    next r hr =>
      obtain ⟨rfl, rfl⟩ : read.reverse = before ∧ r = rest := by simpa using h
      rw [after?_eq_some_iff.1 hr, List.append_assoc]
    next => simpa using ih h

theorem splitAt?_eq {mark text before rest : List Char} (h : splitAt? mark text = some (before, rest)) :
    text = before ++ mark ++ rest := by
  simpa using splitFrom?_eq h

/-- Splits a list at each separator; `piece` holds the current piece and `pieces` those before it, both last
first. -/
def splitOnFrom {α : Type} [DecidableEq α] (separator : α) (piece : List α) (pieces : List (List α)) :
    List α → List (List α)
  | [] => (piece.reverse :: pieces).reverse
  | a :: rest =>
    if a = separator then splitOnFrom separator [] (piece.reverse :: pieces) rest
    else splitOnFrom separator (a :: piece) pieces rest

/-- The pieces of a list between the separators in it, empty ones included. -/
def splitOn {α : Type} [DecidableEq α] (separator : α) (list : List α) : List (List α) :=
  splitOnFrom separator [] [] list

end TagLint
