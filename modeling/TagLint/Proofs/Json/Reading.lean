import TagLint.Proofs.Json.Tokens
/-!
# Reading JSON back

A reader goes through the tokens of a text with the arrays and objects that are still open on a stack. The tokens of a
value take it from any place where a value may stand to behind that value, so what is printed is read back
(`read_pretty`).
-/

namespace TagLint.Json

/-! ## The reader -/

/-- An array or object that is still open. -/
inductive Frame where
  /-- The items before, last first. -/
  | array (before : List Json)
  /-- The fields before, last first, and the name of the field whose value is being read. -/
  | object (before : List (String × Json)) (name : String)

/-- Where a reader stands, in what is open, innermost first. -/
inductive State where
  /-- In front of a value. An array without items may also end here. -/
  | value (stack : List Frame)
  /-- In front of the name of a field. An object without fields may also end here. -/
  | name (before : List (String × Json)) (stack : List Frame)
  /-- In front of the colon behind the name of a field. -/
  | colon (before : List (String × Json)) (name : String) (stack : List Frame)
  /-- Behind a value. -/
  | behind (value : Json) (stack : List Frame)

/-- Reads a token. -/
def step? : State → Token → Option State
  | .value stack, token =>
    match token with
    | .null => some (.behind .null stack)
    | .bool value => some (.behind (.bool value) stack)
    | .number value => some (.behind (.number value) stack)
    | .string value => some (.behind (.string value) stack)
    | .openArray => some (.value (.array [] :: stack))
    | .openObject => some (.name [] stack)
    | .closeArray =>
      match stack with
      | .array [] :: outer => some (.behind (.array []) outer)
      | _ => none
    | .closeObject | .comma | .colon => none
  | .name before stack, .string name => some (.colon before name stack)
  | .name [] stack, .closeObject => some (.behind (.object []) stack)
  | .colon before name stack, .colon => some (.value (.object before name :: stack))
  | .behind value (.array before :: stack), .comma => some (.value (.array (value :: before) :: stack))
  | .behind value (.array before :: stack), .closeArray =>
    some (.behind (.array (value :: before).reverse) stack)
  | .behind value (.object before name :: stack), .comma => some (.name ((name, value) :: before) stack)
  | .behind value (.object before name :: stack), .closeObject =>
    some (.behind (.object ((name, value) :: before).reverse) stack)
  | _, _ => none

/-- The value that tokens make up. -/
def ofTokens? (list : List Token) : Option Json :=
  match list.foldlM step? (.value []) with
  | some (.behind value []) => some value
  | _ => none

/-- The value of a text. -/
def read (text : String) : Option Json := (tokens? text.toList).bind ofTokens?

/-! ## Reading what is printed -/

/-- Parts with commas between them and the bracket behind them, read from in front of a part on. -/
theorem foldlM_separated {α : Type} {a : α} {list before : List α} {word : α → List Token} {closing : Token}
    (front : List α → State) (behind : List α → α → State) (whole : List α → State)
    (hword : ∀ b ∈ a :: list, ∀ before, (word b).foldlM step? (front before) = some (behind before b))
    (hcomma : ∀ before b, step? (behind before b) .comma = some (front (b :: before)))
    (hclosing : ∀ before b, step? (behind before b) closing = some (whole (b :: before).reverse)) :
    (separated ((a :: list).map word) ++ [closing]).foldlM step? (front before) =
      some (whole (before.reverse ++ a :: list)) := by
  induction list generalizing a before with
  | nil =>
    rw [List.map_singleton, separated_singleton, List.foldlM_append, hword a List.mem_cons_self, Option.bind_eq_bind,
      Option.bind_some, List.foldlM_cons, hclosing, List.reverse_cons]
    rfl
  | cons b list ih =>
    obtain ⟨ha, hlist⟩ := List.forall_mem_cons.1 hword
    have hparts : separated ((a :: b :: list).map word) = word a ++ .comma :: separated ((b :: list).map word) :=
      separated_cons_cons _ _ _
    rw [hparts, List.append_assoc, List.cons_append, List.foldlM_append, ha, Option.bind_eq_bind, Option.bind_some,
      List.foldlM_cons, hcomma, Option.bind_eq_bind, Option.bind_some, ih hlist, List.reverse_cons, List.append_assoc,
      List.singleton_append]

/-- The tokens of a value are read as it, wherever a value may stand. -/
theorem foldlM_tokens (value : Json) (stack : List Frame) :
    value.tokens.foldlM step? (.value stack) = some (.behind value stack) := by
  fun_induction tokens value generalizing stack with
  | case1 | case2 | case3 | case4 => rfl
  | case5 items ih =>
    rw [List.cons_append, List.foldlM_cons, step?, Option.bind_eq_bind, Option.bind_some]
    cases items with
    | nil => rfl
    | cons item items =>
      exact foldlM_separated (fun before => .value (.array before :: stack))
        (fun before item => .behind item (.array before :: stack)) (fun items => .behind (.array items) stack)
        (fun item hitem before => ih item hitem (.array before :: stack)) (fun _ _ => rfl) (fun _ _ => rfl)
  | case6 fields ih =>
    rw [List.cons_append, List.foldlM_cons, step?, Option.bind_eq_bind, Option.bind_some]
    cases fields with
    | nil => rfl
    | cons field fields =>
      exact foldlM_separated (fun before => .name before stack)
        (fun before field => .behind field.2 (.object before field.1 :: stack))
        (fun fields => .behind (.object fields) stack)
        (fun field hfield before => ih field hfield (.object before field.1 :: stack)) (fun _ _ => rfl) (fun _ _ => rfl)

/-- What is printed is read back. -/
theorem read_pretty (value : Json) : read value.pretty = some value := by
  have htokens : tokens? (print 0 value) = some value.tokens := by
    have h := readsAs_print 0 value [] nofun
    rw [List.append_nil, tokens?, Option.map_some, List.append_nil] at h
    exact h
  rw [read, pretty, String.toList_ofList, htokens, Option.bind_some, ofTokens?, foldlM_tokens]

end TagLint.Json
