import Mathlib.Data.List.Forall2
import TagLint.Markup.Element
/-!
# The walk is the recursion

The walk keeps stacks of its own. What it has visited and what its stacks have left make up, at each of its steps, what
visiting each element and then the elements below it comes to (`Walk.Under`). So that is what it has visited in the end
(`Element.walk_eq`).
-/

namespace TagLint

/-- Elements and all elements below them in document order, each with the elements around it, of which
`around` are around them all, innermost first. -/
def preorder (around : List Element) : List Element → List Visit
  | [] => []
  | e :: rest => ⟨e, around⟩ :: (preorder (e :: around) e.children ++ preorder around rest)
termination_by es => sizeOf es
decreasing_by
  · obtain ⟨name, attributes, children, position⟩ := e
    simp only [List.cons.sizeOf_spec, Element.mk.sizeOf_spec]
    omega
  · simp only [List.cons.sizeOf_spec]
    omega

namespace Walk

/-! ## What is left -/

/-- What stacks have left to visit: on each level the children pending there, with all that is below them. -/
def leftOn : (ancestors : List Element) → (pending : List (List Element)) → List Visit
  | _, [] => []
  | ancestors, es :: pending => preorder ancestors es ++ leftOn ancestors.tail pending

/-- What a walk has left to visit. -/
def left (w : Walk) : List Visit := leftOn w.ancestors w.pending

/-- The steps that a walk has left: one down to each element left to visit, and one back from each level. -/
def stepsLeft (w : Walk) : Nat := 2 * w.left.length + w.pending.length

/-- A step returns from a level without children left, or visits the next element and begins a level below it. -/
theorem step?_cases {w w' : Walk} (h : w.step? = some w') :
    (∃ pending, w.pending = [] :: pending ∧ w' = ⟨w.ancestors.tail, pending, w.visits⟩) ∨
      ∃ e siblings pending, w.pending = (e :: siblings) :: pending ∧
        w' = ⟨e :: w.ancestors, e.children :: siblings :: pending, ⟨e, w.ancestors⟩ :: w.visits⟩ := by
  unfold step? at h
  split at h
  next => cases h
  next pending hp => exact .inl ⟨pending, hp, (Option.some.inj h).symm⟩
  next e siblings pending hp => exact .inr ⟨e, siblings, pending, hp, (Option.some.inj h).symm⟩

theorem pending_eq_nil_of_step? {w : Walk} (h : w.step? = none) : w.pending = [] := by
  unfold step? at h
  split at h
  next hp => exact hp
  all_goals cases h

theorem left_eq_nil_of_step? {w : Walk} (h : w.step? = none) : w.left = [] := by
  rw [left, pending_eq_nil_of_step? h, leftOn]

/-- What a step visits was the first thing left. -/
theorem visits_append_left {w w' : Walk} (h : w.step? = some w') :
    w'.visits.reverse ++ w'.left = w.visits.reverse ++ w.left := by
  rcases step?_cases h with ⟨pending, hp, rfl⟩ | ⟨e, siblings, pending, hp, rfl⟩
  · simp [left, leftOn, hp, preorder]
  · simp [left, leftOn, hp, preorder]

theorem stepsLeft_eq {w w' : Walk} (h : w.step? = some w') : w.stepsLeft = w'.stepsLeft + 1 := by
  rcases step?_cases h with ⟨pending, hp, rfl⟩ | ⟨e, siblings, pending, hp, rfl⟩
  · simp [stepsLeft, left, leftOn, hp, preorder]
    omega
  · simp [stepsLeft, left, leftOn, hp, preorder]
    omega

theorem stepsLeft_of_step? {w : Walk} (h : w.step? = none) : w.stepsLeft = 0 := by
  rw [stepsLeft, left_eq_nil_of_step? h, pending_eq_nil_of_step? h, List.length_nil, List.length_nil]

/-- At its end a walk has visited what was left. -/
theorem finish_eq (w : Walk) : w.finish = w.visits.reverse ++ w.left := by
  fun_induction finish w with
  | case1 w h => rw [left_eq_nil_of_step? h, List.append_nil]
  | case2 w w' h ih => rw [ih, visits_append_left h]

/-! ## Runs -/

/-- A walk goes over into another one in a number of steps. -/
inductive Runs : Nat → Walk → Walk → Prop
  | refl (w : Walk) : Runs 0 w w
  | step {n : Nat} {w w' w'' : Walk} : w.step? = some w' → Runs n w' w'' → Runs (n + 1) w w''

theorem Runs.stepsLeft_eq {n : Nat} {w w' : Walk} (h : Runs n w w') : w.stepsLeft = w'.stepsLeft + n := by
  induction h with
  | refl => rfl
  | step hs _ ih => rw [Walk.stepsLeft_eq hs, ih, Nat.add_assoc]

/-- Every walk comes to its end. -/
theorem exists_runs (w : Walk) : ∃ n final, Runs n w final ∧ final.step? = none := by
  fun_induction finish w with
  | case1 w h => exact ⟨0, w, .refl w, h⟩
  | case2 w w' h ih =>
    obtain ⟨n, final, hruns, hend⟩ := ih
    exact ⟨n + 1, final, .step h hruns, hend⟩

/-- A walk under way below an element. -/
structure Under (root : Element) (w : Walk) : Prop where
  /-- On each level the children pending are the last ones of the element there. -/
  levels : List.Forall₂ (fun e rest => rest <:+ e.children) w.ancestors w.pending
  /-- What was visited and what is left make up the recursion. -/
  visits : w.visits.reverse ++ w.left = preorder [root] root.children

theorem under_start (root : Element) : (start root).Under root where
  levels := .cons List.suffix_rfl .nil
  visits := by simp [start, left, leftOn]

namespace Under

variable {root : Element} {w w' : Walk}

/-- A step keeps the stacks in step with one another. -/
theorem step? (hu : w.Under root) (h : w.step? = some w') : w'.Under root where
  visits := (visits_append_left h).trans hu.visits
  levels := by
    rcases step?_cases h with ⟨pending, hp, rfl⟩ | ⟨e, siblings, pending, hp, rfl⟩
    · obtain ⟨_, _, -, hrest, ha⟩ := List.forall₂_cons_right_iff.1 (hp ▸ hu.levels)
      simpa [ha] using hrest
    · obtain ⟨_, _, hparent, hrest, ha⟩ := List.forall₂_cons_right_iff.1 (hp ▸ hu.levels)
      rw [ha]
      exact .cons List.suffix_rfl (.cons ((List.suffix_cons e siblings).trans hparent) hrest)

theorem runs {n : Nat} (hu : w.Under root) (h : Runs n w w') : w'.Under root := by
  induction h with
  | refl => exact hu
  | step hs _ ih => exact ih (hu.step? hs)

theorem length_eq (hu : w.Under root) : w.ancestors.length = w.pending.length := hu.levels.length_eq

/-- Where a walk goes on it stands in an element. -/
theorem ancestors_ne_nil (hu : w.Under root) (h : w.step? = some w') : w.ancestors ≠ [] := by
  intro hnil
  have hlength := hu.length_eq
  rcases step?_cases h with ⟨pending, hp, -⟩ | ⟨e, siblings, pending, hp, -⟩ <;> simp [hnil, hp] at hlength

end Under

end Walk

namespace Element

/-- The walk visits what is below an element in document order. -/
theorem walk_eq (e : Element) : e.walk = preorder [e] e.children := by
  rw [walk, Walk.finish_eq, (Walk.under_start e).visits]

theorem stepsLeft_start (e : Element) : (Walk.start e).stepsLeft = 2 * e.walk.length + 1 := by
  simp [Walk.stepsLeft, Walk.left, Walk.start, Walk.leftOn, walk_eq]

end Element

end TagLint
