import TagLint.Proofs.Path.Spelling
import TagLint.Run.Outcome
/-!
# The order of paths

Paths are ordered by their components, so on normalized paths the order tells different paths apart. A set of
paths is the list of its normalized paths, strictly increasing (`RunMode.pathSet_spec`).
-/

namespace TagLint

open Std

/-! ## Components and paths -/

theorem compareLists_eq {α : Type} (cmp : α → α → Ordering) : compareLists cmp = List.compareLex cmp := by
  funext s t
  induction s generalizing t with
  | nil => cases t <;> rfl
  | cons a s ih =>
    cases t with
    | nil => rfl
    | cons b t => rw [List.compareLex_cons_cons, compareLists, ih]

/-- Comparing by a part is as good an order as comparing the parts. -/
theorem transCmp_on {α β : Type} {cmp : α → α → Ordering} [TransCmp cmp] (part : β → α) :
    TransCmp fun a b => cmp (part a) (part b) where
  eq_swap := OrientedCmp.eq_swap
  isLE_trans := TransCmp.isLE_trans

instance : TransCmp compareBytes := by
  rw [compareBytes, compareLists_eq]
  exact inferInstanceAs (TransCmp (List.compareLex (compareOn UInt8.toNat)))

instance : LawfulEqCmp compareBytes := by
  have : LawfulEqCmp (compareOn UInt8.toNat) := ⟨fun h => UInt8.toNat_inj.1 (LawfulEqOrd.eq_of_compare h)⟩
  rw [compareBytes, compareLists_eq]
  exact inferInstanceAs (LawfulEqCmp (List.compareLex (compareOn UInt8.toNat)))

namespace Component

instance : TransCmp compareTo := by
  have : TransCmp fun a b => compareBytes (bytes a) (bytes b) := transCmp_on bytes
  exact inferInstanceAs (TransCmp (compareLex (compareOn rank) fun a b => compareBytes (bytes a) (bytes b)))

instance : LawfulEqCmp compareTo where
  eq_of_compare {a b} h := by
    have hparts : a.rank = b.rank ∧ a.bytes = b.bytes := by
      simpa only [compareTo, Ordering.then_eq_eq, LawfulEqOrd.compare_eq_iff_eq, LawfulEqCmp.compare_eq_iff_eq] using h
    cases a <;> cases b <;> simp_all [rank, bytes]

end Component

namespace Path

instance : TransCmp compareTo := by
  have : TransCmp (compareLists Component.compareTo) := by
    rw [compareLists_eq]
    infer_instance
  exact transCmp_on components

theorem compareTo_eq_eq_iff {p q : Path} : p.compareTo q = .eq ↔ p.components = q.components := by
  rw [compareTo, compareLists_eq, LawfulEqCmp.compare_eq_iff_eq]

/-- Of normalized paths the order tells different ones apart. -/
theorem normalize_eq_of_compareTo {p q : Path} (h : p.normalize.compareTo q.normalize = .eq) :
    p.normalize = q.normalize := by
  rw [compareTo_eq_eq_iff, components_normalize, components_normalize] at h
  exact normalize_eq_normalize_iff.2 h

end Path

/-! ## Sets of paths -/

section

variable {α : Type} {cmp : α → α → Ordering} [TransCmp cmp]

/-- Sorting leaves an increasing list. -/
theorem pairwise_mergeSort_isLE (list : List α) :
    (list.mergeSort fun x y => (cmp x y).isLE).Pairwise fun x y => (cmp x y).isLE := by
  refine List.pairwise_mergeSort (fun x y z => TransCmp.isLE_trans) (fun x y => ?_) list
  have hswap : cmp y x = (cmp x y).swap := OrientedCmp.eq_swap
  rw [hswap, Ordering.isLE_swap]
  cases cmp x y <;> rfl

variable [DecidableEq α]

/-- One more step of dropping repetitions, with the last element kept and those kept before. -/
theorem eraseReps_loop {a : α} {list : List α} (kept : List α)
    (hsorted : (a :: list).Pairwise fun x y => (cmp x y).isLE)
    (hcmp : ∀ x ∈ a :: list, ∀ y ∈ a :: list, cmp x y = .eq → x = y) :
    ∃ rest, List.eraseRepsBy.loop (· == ·) a list kept = kept.reverse ++ rest ∧
      (rest.Pairwise fun x y => cmp x y = .lt) ∧ ∀ x, x ∈ rest ↔ x ∈ a :: list := by
  induction list generalizing a kept with
  | nil => exact ⟨[a], by simp [List.eraseRepsBy.loop], by simp, by simp⟩
  | cons b list ih =>
    obtain ⟨ha, hsorted⟩ := List.pairwise_cons.1 hsorted
    by_cases hab : a = b
    · subst hab
      obtain ⟨rest, hloop, hlt, hmem⟩ := ih kept hsorted fun x hx y hy => hcmp x (.tail _ hx) y (.tail _ hy)
      exact ⟨rest, by simpa [List.eraseRepsBy.loop] using hloop, hlt, by simpa using hmem⟩
    · obtain ⟨rest, hloop, hlt, hmem⟩ := ih (a :: kept) hsorted fun x hx y hy => hcmp x (.tail _ hx) y (.tail _ hy)
      refine ⟨a :: rest, ?_, List.pairwise_cons.2 ⟨fun x hx => ?_, hlt⟩, by simp [hmem]⟩
      · simpa [List.eraseRepsBy.loop, beq_eq_false_iff_ne.2 hab] using hloop
      · -- Were `a` equal to a later element, all between them would be equal to it, and so would `b`.
        have hx := (hmem x).1 hx
        have hbx : (cmp b x).isLE := by
          rcases List.mem_cons.1 hx with rfl | hx
          · exact ReflCmp.isLE_rfl
          · exact (List.pairwise_cons.1 hsorted).1 x hx
        have hne : cmp a x ≠ .eq := by
          intro he
          obtain rfl := hcmp a List.mem_cons_self x (.tail _ hx) he
          exact hab (hcmp a List.mem_cons_self b (.tail _ List.mem_cons_self)
            (OrientedCmp.isLE_antisymm (ha b List.mem_cons_self) hbx))
        have hle := ha x hx
        cases hc : cmp a x with
        | lt => rfl
        | eq => exact absurd hc hne
        | gt => rw [hc] at hle; cases hle

/-- Dropping repetitions from an increasing list leaves its members, each once. -/
theorem pairwise_eraseReps {list : List α} (hsorted : list.Pairwise fun x y => (cmp x y).isLE)
    (hcmp : ∀ x ∈ list, ∀ y ∈ list, cmp x y = .eq → x = y) :
    (list.eraseReps.Pairwise fun x y => cmp x y = .lt) ∧ ∀ x, x ∈ list.eraseReps ↔ x ∈ list := by
  cases list with
  | nil => exact ⟨.nil, fun x => Iff.rfl⟩
  | cons a list =>
    obtain ⟨rest, hloop, hspec⟩ := eraseReps_loop [] hsorted hcmp
    rw [List.reverse_nil, List.nil_append] at hloop
    rw [List.eraseReps, List.eraseRepsBy, hloop]
    exact hspec

end

namespace RunMode

/-- The paths of a set are strictly increasing, and they are the normalized ones of those given. -/
theorem pathSet_spec (paths : List Path) :
    ((pathSet paths).Pairwise fun p q => p.compareTo q = .lt) ∧
      ∀ p, p ∈ pathSet paths ↔ p ∈ paths.map Path.normalize := by
  have hperm := List.mergeSort_perm (paths.map Path.normalize) fun p q => (p.compareTo q).isLE
  obtain ⟨hlt, hmem⟩ := pairwise_eraseReps (pairwise_mergeSort_isLE (paths.map Path.normalize)) fun p hp q hq h => by
    obtain ⟨p, -, rfl⟩ := List.mem_map.1 (hperm.mem_iff.1 hp)
    obtain ⟨q, -, rfl⟩ := List.mem_map.1 (hperm.mem_iff.1 hq)
    exact Path.normalize_eq_of_compareTo h
  exact ⟨hlt, fun p => (hmem p).trans hperm.mem_iff⟩

end RunMode

end TagLint
