/-!
# UTF-8

Bytes are taken one by one. A character that has begun knows how many bytes it still needs and between
which bounds the next one must lie, so overlong forms, surrogates and numbers that are too large are refused
at the first byte that shows them. Bytes that belong to no character form parts as long as they could still
have become one, and each part is one item.
-/

namespace TagLint.Utf8

/-- The bytes of a text. -/
def encode (text : List Char) : List UInt8 := text.flatMap String.utf8EncodeChar

/-- A character whose first bytes have been read. -/
structure Unfinished where
  /-- How many bytes are missing, at least one. -/
  missing : Nat
  /-- The bounds of the next byte. -/
  low : UInt8
  high : UInt8
  /-- The number that the bytes so far write. -/
  value : Nat
deriving DecidableEq

/-- What a byte yields, and the character it leaves unfinished. An item is a character, or `none` for a
part that belongs to no character. -/
abbrev Step := List (Option Char) × Option Unfinished

/-- Reads a byte where a character begins. -/
def beginWith (b : UInt8) : Step :=
  if b < 0x80 then ([some (Char.ofNat b.toNat)], none)
  else if b < 0xC2 then ([none], none)
  else if b < 0xE0 then ([], some ⟨1, 0x80, 0xBF, b.toNat - 0xC0⟩)
  else if b = 0xE0 then ([], some ⟨2, 0xA0, 0xBF, 0⟩)
  else if b = 0xED then ([], some ⟨2, 0x80, 0x9F, 0xD⟩)
  else if b < 0xF0 then ([], some ⟨2, 0x80, 0xBF, b.toNat - 0xE0⟩)
  else if b = 0xF0 then ([], some ⟨3, 0x90, 0xBF, 0⟩)
  else if b < 0xF4 then ([], some ⟨3, 0x80, 0xBF, b.toNat - 0xF0⟩)
  else if b = 0xF4 then ([], some ⟨3, 0x80, 0x8F, 4⟩)
  else ([none], none)

/-- Reads a byte. One that cannot go on with the unfinished character ends it as a part and begins anew. -/
def step (unfinished : Option Unfinished) (b : UInt8) : Step :=
  match unfinished with
  | none => beginWith b
  | some p =>
    if p.low ≤ b ∧ b ≤ p.high then
      let value := p.value * 64 + (b.toNat - 0x80)
      if p.missing = 1 then ([some (Char.ofNat value)], none)
      else ([], some ⟨p.missing - 1, 0x80, 0xBF, value⟩)
    else
      let (items, next) := beginWith b
      (none :: items, next)

/-- The items of bytes, behind those that `before` holds last first. -/
def itemsFrom (unfinished : Option Unfinished) (before : List (Option Char)) : List UInt8 → List (Option Char)
  | [] => (if unfinished.isSome then none :: before else before).reverse
  | b :: rest =>
    let (items, next) := step unfinished b
    itemsFrom next (items.reverse ++ before) rest

/-- The characters of bytes, with `none` for each part that belongs to no character. -/
def items (bytes : List UInt8) : List (Option Char) := itemsFrom none [] bytes

/-- The text of which the bytes are the encoding, or the length of their longest part from the start that
is an encoding. -/
def decode (bytes : List UInt8) : Except Nat (List Char) :=
  let found := items bytes
  let text := (found.takeWhile Option.isSome).filterMap id
  if found.all Option.isSome then .ok text else .error (text.foldl (fun n c => n + c.utf8Size) 0)

/-- The text of bytes, with a replacement character for each part that belongs to no character. -/
def decodeLossy (bytes : List UInt8) : List Char := (items bytes).map (·.getD '\uFFFD')

end TagLint.Utf8
