/-!
# Digits

Numbers are written in ASCII digits of a base, with letters of either case behind nine. They are read exactly,
however many digits they have, or as words of 32 bits, where a number that does not fit is none.
-/

namespace TagLint.Digits

/-- The value of a digit in a base of at most sixteen. -/
def value? (base : Nat) (c : Char) : Option Nat :=
  let value :=
    if '0' ≤ c ∧ c ≤ '9' then c.toNat - '0'.toNat
    else if 'a' ≤ c ∧ c ≤ 'f' then c.toNat - 'a'.toNat + 10
    else if 'A' ≤ c ∧ c ≤ 'F' then c.toNat - 'A'.toNat + 10
    else 16
  if value < base then some value else none

/-- Whether a character is a digit in a base. -/
def isDigit (base : Nat) (c : Char) : Bool := (value? base c).isSome

/-- The number that digits write behind a number already read. -/
def numberFrom? (base : Nat) : (read : Nat) → List Char → Option Nat
  | read, [] => some read
  | read, c :: text =>
    match value? base c with
    | some d => numberFrom? base (read * base + d) text
    | none => none

/-- The number that a non-empty text of digits writes. -/
def number? (base : Nat) : List Char → Option Nat
  | [] => none
  | c :: text => numberFrom? base 0 (c :: text)

/-- The word that digits write behind a word already read, unless a digit takes it past 32 bits. -/
def wordFrom? (base : Nat) : (read : UInt32) → List Char → Option UInt32
  | read, [] => some read
  | read, c :: text =>
    match value? base c with
    | some d =>
      let next := read.toNat * base + d
      if next < UInt32.size then wordFrom? base (.ofNat next) text else none
    | none => none

/-- The word that a non-empty text of digits writes. -/
def word? (base : Nat) : List Char → Option UInt32
  | [] => none
  | c :: text => wordFrom? base 0 (c :: text)

end TagLint.Digits
