import TagLint.Markup.Reference
import TagLint.Markup.Lexeme
/-!
# Reading character data

What reading yields in general, and the reading of characters in which ampersands begin references: the
character data of elements and the values of attributes.
-/

namespace TagLint

/-- Where reading stops short: the text from the fault on, and what is wrong there. -/
structure Fault where
  rest : List Char
  cause : SyntaxCause
deriving DecidableEq

/-- Something read off the front of a text, with the text left. -/
abbrev Reading (α : Type) := Except Fault (α × List Char)

/-- Reads characters up to one of those that `stops` names; each ampersand must begin a reference. -/
def readRun (stops : Char → Bool) (text : List Char) : Reading (List Char) :=
  let run := text.takeWhile (fun c => !stops c)
  let rest := text.dropWhile (fun c => !stops c)
  match Reference.firstFault run with
  | some (fault, cause) => .error ⟨fault ++ rest, .badReference cause⟩
  | none => .ok (run, rest)

theorem readRun_eq {stops : Char → Bool} {text run rest : List Char}
    (h : readRun stops text = .ok (run, rest)) : text = run ++ rest := by
  simp only [readRun] at h
  split at h
  next => simp at h
  next =>
    obtain ⟨rfl, rfl⟩ : text.takeWhile (fun c => !stops c) = run ∧ text.dropWhile (fun c => !stops c) = rest := by
      simpa using h
    simp

theorem ne_nil_of_readRun {stops : Char → Bool} {c : Char} {text run rest : List Char}
    (h : readRun stops (c :: text) = .ok (run, rest)) (hc : stops c = false) : run ≠ [] := by
  simp only [readRun] at h
  split at h
  next => simp at h
  next =>
    simp only [Except.ok.injEq, Prod.mk.injEq] at h
    simp [← h.1, hc]

end TagLint
