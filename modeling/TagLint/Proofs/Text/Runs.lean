import TagLint.Text.Split
/-!
# Runs and first marks

What is taken off the front of a text, said without the functions that take it. A run of characters is
followed by none that could go on with it (`span_iff`), and a mark that was found stands nowhere earlier
(`splitAt?_eq_some_iff`).
-/

namespace TagLint

/-! ## Runs -/

theorem span_iff {α : Type} (p : α → Bool) (text run rest : List α) :
    text.takeWhile p = run ∧ text.dropWhile p = rest ↔
      text = run ++ rest ∧ (∀ c ∈ run, p c) ∧ ∀ c ∈ rest.head?, p c = false := by
  constructor
  · rintro ⟨rfl, rfl⟩
    refine ⟨List.takeWhile_append_dropWhile.symm, fun c hc => ?_, fun c hc => ?_⟩
    · exact List.all_eq_true.1 List.all_takeWhile c hc
    · have := List.head?_dropWhile_not p text
      rw [hc] at this
      simpa using this
  · rintro ⟨rfl, hrun, hrest⟩
    rw [List.takeWhile_append_of_pos hrun, List.dropWhile_append_of_pos hrun]
    cases rest with
    | nil => simp
    | cons c rest => simp [hrest c rfl]

/-- What stands behind a run without a character stands where that character does. -/
theorem exists_eq_append_of_notMem {α : Type} {c : α} {run rest before after : List α} (hc : c ∉ run)
    (h : run ++ rest = before ++ c :: after) : ∃ between, before = run ++ between ∧ rest = between ++ c :: after := by
  rcases List.append_eq_append_iff.1 h with ⟨between, hb, hr⟩ | ⟨between, hb, hr⟩
  · exact ⟨between, hb, hr⟩
  · cases between with
    | nil => exact ⟨[], by simpa using hb.symm, by simpa using hr.symm⟩
    | cons d between =>
      obtain ⟨rfl, -⟩ : c = d ∧ _ := by simpa using hr
      exact absurd (by simp [hb]) hc

/-! ## The first place of a mark -/

/-- Behind `body` a mark stands for the first time: neither in it nor begun in it. -/
def EndsAtFirst (mark body : List Char) : Prop :=
  ∀ before after, body ++ mark = before ++ mark ++ after → after = []

theorem endsAtFirst_nil (mark : List Char) : EndsAtFirst mark [] := by
  intro before after h
  have hlen := congrArg List.length h
  simp only [List.nil_append, List.length_append] at hlen
  exact List.length_eq_zero_iff.1 (by omega)

theorem endsAtFirst_cons {mark body : List Char} {c : Char} :
    EndsAtFirst mark (c :: body) ↔ (∀ after, c :: body ++ mark ≠ mark ++ after) ∧ EndsAtFirst mark body := by
  constructor
  · intro h
    refine ⟨fun after ha => ?_, fun before after ha => h (c :: before) after (by simp [ha])⟩
    have := h [] after (by simpa using ha)
    subst this
    have hlen := congrArg List.length ha
    simp only [List.length_append, List.length_cons, List.length_nil] at hlen
    omega
  · rintro ⟨hc, h⟩ before after ha
    cases before with
    | nil => exact absurd (by simpa using ha) (hc after)
    | cons b before =>
      simp only [List.cons_append, List.cons.injEq] at ha
      exact h before after (by simpa using ha.2)

/-- Behind a text without its first character a mark stands for the first time. -/
theorem endsAtFirst_of_notMem {c : Char} {mark body : List Char} (h : c ∉ body) : EndsAtFirst (c :: mark) body := by
  intro before after heq
  rw [List.append_assoc, List.cons_append] at heq
  obtain ⟨between, rfl, hmark⟩ := exists_eq_append_of_notMem h heq
  have hlen := congrArg List.length hmark
  simp only [List.length_append, List.length_cons] at hlen
  exact List.length_eq_zero_iff.1 (by omega)

/-- A mark in front of a text that is long enough is a mark in front of its beginning. -/
theorem exists_append_of_append {mark body rest after : List Char} (h : body ++ mark ++ rest = mark ++ after) :
    ∃ after', body ++ mark = mark ++ after' := by
  have hmark : mark <+: body ++ mark ++ rest := ⟨after, h.symm⟩
  obtain ⟨after', ha⟩ := List.prefix_of_prefix_length_le hmark (List.prefix_append _ rest) (by simp)
  exact ⟨after', ha.symm⟩

theorem splitFrom?_eq_some_iff {mark read text before rest : List Char} (hm : mark ≠ []) :
    splitFrom? mark read text = some (before, rest) ↔
      ∃ body, before = read.reverse ++ body ∧ text = body ++ mark ++ rest ∧ EndsAtFirst mark body := by
  induction text generalizing read with
  | nil => simp [splitFrom?, hm]
  | cons c text ih =>
    simp only [splitFrom?]
    cases ha : after? mark (c :: text) with
    | some r =>
      have hr := after?_eq_some_iff.1 ha
      simp only [Option.some.injEq, Prod.mk.injEq]
      constructor
      · rintro ⟨rfl, rfl⟩
        exact ⟨[], by simp, by simpa using hr, endsAtFirst_nil mark⟩
      · rintro ⟨body, rfl, ht, hf⟩
        cases body with
        | nil => exact ⟨by simp, by simpa using hr.symm.trans ht⟩
        | cons b body =>
          -- The mark stands here already, so it would begin before the end of a longer body.
          obtain ⟨after, h⟩ := exists_append_of_append (ht.symm.trans hr)
          exact absurd h ((endsAtFirst_cons.1 hf).1 after)
    | none =>
      simp only [ih]
      constructor
      · rintro ⟨body, rfl, ht, hf⟩
        refine ⟨c :: body, by simp, by simp [ht], endsAtFirst_cons.2 ⟨fun after h => ?_, hf⟩⟩
        have : after? mark (c :: text) = some (after ++ rest) :=
          after?_eq_some_iff.2 (by rw [ht, ← List.append_assoc, ← h]; simp)
        rw [ha] at this
        cases this
      · rintro ⟨body, rfl, ht, hf⟩
        cases body with
        | nil => rw [after?_eq_some_iff.2 (by simpa using ht)] at ha; cases ha
        | cons b body =>
          simp only [List.cons_append, List.cons.injEq] at ht
          obtain ⟨rfl, ht⟩ := ht
          exact ⟨body, by simp, ht, (endsAtFirst_cons.1 hf).2⟩

theorem splitAt?_eq_some_iff {mark text body rest : List Char} (hm : mark ≠ []) :
    splitAt? mark text = some (body, rest) ↔ text = body ++ mark ++ rest ∧ EndsAtFirst mark body := by
  rw [splitAt?, splitFrom?_eq_some_iff hm]
  simp

end TagLint
