/-!
# First occurrences

Lists that are put together from several sources keep each entry at its first occurrence. What counts as the same
entry is told by a key: a name, a list of components, the entry itself. `Firsts` says what is kept without saying
how, and `firsts_eraseDupsBy` that dropping repetitions keeps it.
-/

namespace TagLint

section

variable {α β : Type} {key : α → β} {list kept : List α}

/-- `Firsts key list kept`: of the elements of a list with one key the first stays and all others are dropped. -/
inductive Firsts (key : α → β) : List α → List α → Prop
  | nil : Firsts key [] []
  | first {list kept : List α} {a : α} :
    Firsts key list kept → key a ∉ list.map key → Firsts key (list ++ [a]) (kept ++ [a])
  | repeated {list kept : List α} {a : α} :
    Firsts key list kept → key a ∈ list.map key → Firsts key (list ++ [a]) kept

/-- No key is lost. -/
theorem Firsts.mem_map_iff (h : Firsts key list kept) (k : β) : k ∈ kept.map key ↔ k ∈ list.map key := by
  induction h with
  | nil => rfl
  | first _ _ ih => rw [List.map_append, List.map_append, List.mem_append, List.mem_append, ih]
  | repeated _ ha ih =>
    rw [ih, List.map_append, List.mem_append]
    constructor
    · exact .inl
    · rintro (hk | hk)
      · exact hk
      · rwa [List.mem_singleton.1 hk]

/-- No key is kept twice. -/
theorem Firsts.nodup (h : Firsts key list kept) : (kept.map key).Nodup := by
  induction h with
  | nil => exact .nil
  | @first list kept a h ha ih =>
    rw [List.map_append, List.nodup_append]
    refine ⟨ih, by simp, fun k hk k' hk' => ?_⟩
    obtain rfl : k' = key a := by simpa using hk'
    rintro rfl
    exact ha ((h.mem_map_iff _).1 hk)
  | repeated _ _ ih => exact ih

theorem firsts_eraseDupsBy {same : α → α → Bool} (hsame : ∀ a b, same a b = true ↔ key a = key b) (list : List α) :
    Firsts key list (list.eraseDupsBy same) := by
  -- The loop holds what it kept of the elements it passed, last first.
  have hloop (passed kept rest : List α) (h : Firsts key passed kept.reverse) :
      Firsts key (passed ++ rest) (List.eraseDupsBy.loop same rest kept) := by
    induction rest generalizing passed kept with
    | nil => rwa [List.append_nil, List.eraseDupsBy.loop]
    | cons a rest ih =>
      have hany : kept.any (same a) = true ↔ key a ∈ passed.map key := by
        rw [← h.mem_map_iff, List.map_reverse, List.mem_reverse, List.any_eq_true, List.mem_map]
        simp only [hsame, eq_comm]
      rw [List.eraseDupsBy.loop, ← List.singleton_append, ← List.append_assoc]
      cases hk : kept.any (same a) with
      | true => exact ih _ _ (.repeated h (hany.1 hk))
      | false =>
        refine ih _ _ ?_
        rw [List.reverse_cons]
        exact .first h fun hm => by rw [hany.2 hm] at hk; cases hk
  exact hloop [] [] list .nil

end

end TagLint
