import TagLint.Text.Split
/-!
# The pieces between separators

Splitting at a separator is that of the library (`splitOn_eq`), and no piece holds the separator.
-/

namespace TagLint

theorem splitOnFrom_eq {α : Type} [DecidableEq α] (separator : α) (piece : List α) (pieces : List (List α))
    (list : List α) : splitOnFrom separator piece pieces list =
      pieces.reverse ++ list.splitOnPPrepend (· == separator) piece := by
  induction list generalizing piece pieces with
  | nil => simp [splitOnFrom]
  | cons a list ih =>
    by_cases h : a = separator
    · simp [splitOnFrom, h, ih, List.splitOnPPrepend_cons_pos]
    · simp [splitOnFrom, h, ih, List.splitOnPPrepend_cons_neg]

theorem splitOn_eq {α : Type} [DecidableEq α] (separator : α) (list : List α) :
    splitOn separator list = list.splitOn separator := by
  rw [splitOn, splitOnFrom_eq]
  simp [List.splitOn_eq_splitOnP]

theorem notMem_of_mem_splitOn {α : Type} [DecidableEq α] {separator : α} {piece list : List α}
    (h : piece ∈ splitOn separator list) : separator ∉ piece := by
  have hfrom (current : List α) (pieces : List (List α)) (hc : separator ∉ current)
      (hp : ∀ q ∈ pieces, separator ∉ q) : ∀ q ∈ splitOnFrom separator current pieces list, separator ∉ q := by
    clear h
    induction list generalizing current pieces with
    | nil =>
      intro q hq
      rcases List.mem_cons.1 (List.mem_reverse.1 hq) with rfl | hq
      · simpa using hc
      · exact hp q hq
    | cons a list ih =>
      rw [splitOnFrom]
      split
      next =>
        refine ih [] _ (by simp) fun q hq => ?_
        rcases List.mem_cons.1 hq with rfl | hq
        · simpa using hc
        · exact hp q hq
      next ha => exact ih _ _ (by simpa [Ne.symm ha] using hc) hp
  exact hfrom [] [] (by simp) (by simp) piece h

end TagLint
