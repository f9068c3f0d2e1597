import TagLint.Text.Blank
import TagLint.Text.Split
/-!
# Values of environment variables

A list is a text with commas between its entries, and a switch is one of a few words. Space around an entry
or a word does not count.
-/

namespace TagLint.Config

/-- The entries of a list, or the position, counted from 1, of the first entry that is empty. A blank text
is the empty list. -/
def parseList (text : String) : Except Nat (List String) :=
  let entries := (splitOn ',' text.toList).map trimChars
  if (trimChars text.toList).isEmpty then .ok []
  else
    match entries.findIdx? List.isEmpty with
    | some i => .error (i + 1)
    | none => .ok (entries.map String.ofList)

/-- The word of a switch as it is looked up: without the space around it, in lower-case letters. -/
def switchWord (text : String) : String := .ofList ((trimChars text.toList).map Char.toLower)

/-- Whether a switch is on. Nothing if its word is none of those known. -/
def parseSwitch (text : String) : Option Bool :=
  let word := switchWord text
  if word ∈ ["1", "true", "yes", "on"] then some true
  else if word ∈ ["0", "false", "no", "off", ""] then some false
  else none

end TagLint.Config
