import TagLint.Pattern.Flags
import TagLint.Text.Digits
/-!
# Repetitions

An operand may be repeated by a mark or by counts between braces. A question mark behind either makes the
repetition take as little as it can.
-/

namespace TagLint.Pattern

/-- The largest count. -/
def maxCount : Nat := 0xFFFFFFFF

/-- The decimal number at the front of a text with blanks around it, or its fault, and what follows. -/
def decimal (f : Flags) (text : List Char) : Checked Nat × List Char :=
  let (digits, rest) := f.take Char.isDigit (text.dropWhile isBlank)
  let count := match Digits.number? 10 digits with
    | none => throw .missingCount
    | some n => if n ≤ maxCount then return n else throw .largeCount
  (count, rest.dropWhile isBlank)

/-- Passes over the mark of a repetition that takes as little as it can. -/
def skipReluctance : List Char → List Char
  | '?' :: text => text
  | text => text

/-- Reads the end of counts. -/
def endCounts (f : Flags) : List Char → Checked (List Char)
  | '\x7d' :: rest => return skipReluctance (f.skip rest)
  | _ => throw .unclosedCount

/-- Passes over counts from behind their brace: one count, a least one, or a least and a greatest one. A fault
of the least count shows only if the counts go on behind it. -/
def skipCounts (f : Flags) (text : List Char) : Checked (List Char) :=
  match f.skip text with
  | [] => throw .unclosedCount
  | text =>
    let (least, rest) := decimal f text
    match rest with
    | [] => throw .unclosedCount
    | ',' :: rest =>
      match f.skip rest with
      | [] => throw .unclosedCount
      | '\x7d' :: rest => do
        let _ ← least
        endCounts f ('\x7d' :: rest)
      | rest => do
        let least ← least
        let (greatest, rest) := decimal f rest
        let greatest ← greatest
        let rest ← endCounts f rest
        if least ≤ greatest then return rest else throw .reversedCounts
    | rest => do
      let _ ← least
      endCounts f rest

end TagLint.Pattern
