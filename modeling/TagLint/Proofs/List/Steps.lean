/-!
# Steps that may fail

Of steps that are taken one behind the other each must give a value for the whole to give one. That goes for two steps
and for those that a list is taken through item by item.
-/

namespace TagLint

variable {ε α β : Type}

/-- A step that is followed by another one gave a value if both together did. -/
theorem ok_of_bind {step : Except ε α} {next : α → Except ε β} {b : β} (h : (step >>= next) = .ok b) :
    ∃ a, step = .ok a ∧ next a = .ok b := by
  cases step with
  | error e => cases h
  | ok a => exact ⟨a, rfl, h⟩

/-- Two steps give a value if the first gives one with which the second does. -/
theorem exists_ok_bind_iff {step : Except ε α} {next : α → Except ε β} :
    (∃ b, (step >>= next) = .ok b) ↔ ∃ a, step = .ok a ∧ ∃ b, next a = .ok b := by
  constructor
  · rintro ⟨b, h⟩
    obtain ⟨a, ha, hb⟩ := ok_of_bind h
    exact ⟨a, ha, b, hb⟩
  · rintro ⟨a, rfl, b, hb⟩
    exact ⟨b, hb⟩

theorem ok_of_mapM {step : α → Except ε β} {list : List α} {values : List β} (h : list.mapM step = .ok values) :
    ∀ a ∈ list, ∃ b, step a = .ok b := by
  induction list generalizing values with
  | nil => exact List.forall_mem_nil _
  | cons a list ih =>
    rw [List.mapM_cons] at h
    obtain ⟨b, hb, h⟩ := ok_of_bind h
    obtain ⟨rest, hrest, -⟩ := ok_of_bind h
    exact List.forall_mem_cons.2 ⟨⟨b, hb⟩, ih hrest⟩

/-- A list whose items are written so that they are read back is written and read back. -/
theorem mapM_mapM {write : α → Except ε β} {read : β → Option α} {list : List α}
    (h : ∀ a ∈ list, ∃ b, write a = .ok b ∧ read b = some a) :
    ∃ values, list.mapM write = .ok values ∧ values.mapM read = some list := by
  induction list with
  | nil => exact ⟨[], rfl, rfl⟩
  | cons a list ih =>
    obtain ⟨⟨b, hwrite, hread⟩, hlist⟩ := List.forall_mem_cons.1 h
    obtain ⟨values, hwrites, hreads⟩ := ih hlist
    refine ⟨b :: values, ?_, ?_⟩
    · rw [List.mapM_cons, hwrite, hwrites]
      rfl
    · rw [List.mapM_cons, hread, hreads]
      rfl

/-- The same where writing cannot fail. -/
theorem mapM_map {write : α → β} {read : β → Option α} {list : List α} (h : ∀ a, read (write a) = some a) :
    (list.map write).mapM read = some list := by
  induction list with
  | nil => rfl
  | cons a list ih =>
    rw [List.map_cons, List.mapM_cons, h, ih]
    rfl

end TagLint
