/-!
# TOML values

Numbers, dates and times are kept as they are written, for no setting of the program is one. The keys of a
table are pairwise distinct.
-/

namespace TagLint.Toml

inductive Value where
  | string (text : String)
  | boolean (value : Bool)
  /-- A number, a date or a time, as it is written. -/
  | scalar (text : String)
  | array (items : List Value)
  | table (entries : List (String × Value))

/-- Something read off the front of a text, with the text left; nothing if the text is not well-formed. -/
abbrev Reading (α : Type) := Option (α × List Char)

end TagLint.Toml
