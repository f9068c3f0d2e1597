import Mathlib.Data.List.Sort
import TagLint.Proofs.Path.Respelling
import TagLint.Proofs.Run.Decision
/-!
# Runs in another order and another spelling

Which files are expected to fail is told by their normalized paths. So it makes no difference to a test run in which
order its files and its expectations are listed, how often an expectation is, and how the paths are spelled
(`RunMode.evaluate_rearranged`).
-/

namespace TagLint

open Std

/-! ## Lists of paths that are the same places -/

/-- Two lists of paths name the same places: each path of one is spelled in some way in the other, at any place of it
and any number of times. -/
def SamePlaces (X Y : List Path) : Prop := (∀ p ∈ X, ∃ q ∈ Y, p.Respelled q) ∧ ∀ q ∈ Y, ∃ p ∈ X, p.Respelled q

instance (X Y : List Path) : Decidable (SamePlaces X Y) := inferInstanceAs (Decidable (_ ∧ _))

theorem Path.Respelled.normalize_eq {p q : Path} (h : p.Respelled q) : p.normalize = q.normalize :=
  normalize_eq_normalize_iff.2 (respelled_iff.1 h)

theorem SamePlaces.mem_map_normalize_iff {X Y : List Path} (h : SamePlaces X Y) (p : Path) :
    p ∈ X.map Path.normalize ↔ p ∈ Y.map Path.normalize := by
  constructor
  · intro hp
    obtain ⟨q, hq, rfl⟩ := List.mem_map.1 hp
    obtain ⟨r, hr, hspell⟩ := h.1 q hq
    exact List.mem_map.2 ⟨r, hr, hspell.normalize_eq.symm⟩
  · intro hp
    obtain ⟨q, hq, rfl⟩ := List.mem_map.1 hp
    obtain ⟨r, hr, hspell⟩ := h.2 q hq
    exact List.mem_map.2 ⟨r, hr, hspell.normalize_eq⟩

/-- A set of paths is told by its members. -/
theorem RunMode.pathSet_congr {X Y : List Path} (h : ∀ p, p ∈ X.map Path.normalize ↔ p ∈ Y.map Path.normalize) :
    pathSet X = pathSet Y := by
  have hirrefl : Std.Irrefl fun p q : Path => p.compareTo q = .lt := by
    refine ⟨fun p hlt => ?_⟩
    have hself : p.compareTo p = .eq := ReflCmp.compare_self
    rw [hself] at hlt
    cases hlt
  have hantisymm : Std.Antisymm fun p q : Path => p.compareTo q = .lt := by
    refine ⟨fun p q hlt hgt => ?_⟩
    have hswap : p.compareTo q = (q.compareTo p).swap := OrientedCmp.eq_swap
    rw [hswap, hgt] at hlt
    cases hlt
  obtain ⟨hX, hmemX⟩ := pathSet_spec X
  obtain ⟨hY, hmemY⟩ := pathSet_spec Y
  exact hX.eq_of_mem_iff hY fun p => by rw [hmemX, hmemY, h]

/-! ## Verdicts that are the same but for the spelling of their paths -/

/-- The same verdict on the same file, whose path is spelled in another way. -/
structure FileVerdict.Respelled (v w : FileVerdict) : Prop where
  path : v.path.Respelled w.path
  passed : v.passed = w.passed
  diagnostics : v.diagnostics = w.diagnostics

/-- The same error about the same file, whose path is spelled in another way. -/
inductive RunError.Respelled : RunError → RunError → Prop
  | unexpectedPass {p q : Path} : p.Respelled q → Respelled (.unexpectedPass p) (.unexpectedPass q)
  | unexpectedFailure {p q : Path} : p.Respelled q → Respelled (.unexpectedFailure p) (.unexpectedFailure q)

/-- A verdict is an error in both spellings or in neither. -/
theorem FileVerdict.Respelled.ofVerdict? {v w : FileVerdict} (h : v.Respelled w) (expected : List Path) :
    Option.Rel RunError.Respelled (RunError.ofVerdict? expected v) (RunError.ofVerdict? expected w) := by
  unfold RunError.ofVerdict?
  rw [← h.path.normalize_eq, ← h.passed]
  split <;> split
  · exact .some (.unexpectedPass h.path)
  · exact .none
  · exact .none
  · exact .some (.unexpectedFailure h.path)

section

variable {verdicts moved verdicts' : List FileVerdict}

/-- What spelling leaves as it is has the same values in a respelled list. -/
theorem map_eq_of_respelled {β : Type} {f : FileVerdict → β} (hf : ∀ v w : FileVerdict, v.Respelled w → f v = f w)
    (h : List.Forall₂ FileVerdict.Respelled moved verdicts') : moved.map f = verdicts'.map f := by
  rw [← List.forall₂_eq_eq_eq, List.forall₂_map_left_iff, List.forall₂_map_right_iff]
  exact h.imp fun v w => hf v w

/-- The errors of respelled verdicts are respelled with them. -/
theorem forall₂_filterMap_ofVerdict? (expected : List Path) (h : List.Forall₂ FileVerdict.Respelled moved verdicts') :
    List.Forall₂ RunError.Respelled (moved.filterMap (RunError.ofVerdict? expected))
      (verdicts'.filterMap (RunError.ofVerdict? expected)) :=
  List.rel_filterMap (fun _ _ hv => hv.ofVerdict? expected) h

/-! ## Main theorem -/

/-- Two runs agree, of which the second has the verdicts of the first: first moved to another order, and then respelled.
Each verdict brings its error along, so what is known of the errors is more than their number. -/
structure SameDecision (mode mode' : RunMode) (verdicts moved verdicts' : List FileVerdict) : Prop where
  passed : (mode.evaluate verdicts).passed = (mode'.evaluate verdicts').passed
  failedFiles : (mode.evaluate verdicts).failedFiles = (mode'.evaluate verdicts').failedFiles
  warnings : mode.events verdicts = mode'.events verdicts'
  errors : ∃ errorOf : FileVerdict → Option RunError, (∀ v e, errorOf v = some e → e.path = v.path) ∧
    (mode.evaluate verdicts).errors = verdicts.filterMap errorOf ∧
    List.Forall₂ RunError.Respelled (moved.filterMap errorOf) (mode'.evaluate verdicts').errors

theorem sameDecision_test (expected : List Path) (hperm : verdicts.Perm moved)
    (hspell : List.Forall₂ FileVerdict.Respelled moved verdicts') :
    SameDecision (.test expected) (.test expected) verdicts moved verdicts' := by
  have herrors := forall₂_filterMap_ofVerdict? expected hspell
  refine ⟨?_, ?_, ?_, RunError.ofVerdict? expected, fun v e => RunError.path_of_ofVerdict?, rfl, herrors⟩
  · have hlength := (hperm.filterMap (RunError.ofVerdict? expected)).length_eq.trans herrors.length_eq
    show List.isEmpty _ = List.isEmpty _
    rw [Bool.eq_iff_iff, List.isEmpty_iff_length_eq_zero, List.isEmpty_iff_length_eq_zero, hlength]
  · have hpassed := map_eq_of_respelled (fun v w h => h.passed) hspell
    have hcount (l : List FileVerdict) : l.countP (fun v => !v.passed) = (l.map FileVerdict.passed).countP (!·) := by
      rw [List.countP_map]
      rfl
    show List.countP _ verdicts = List.countP _ verdicts'
    rw [hperm.countP_eq, hcount, hcount, hpassed]
  · have hpaths := map_eq_of_respelled (f := (·.path.normalize)) (fun v w h => h.path.normalize_eq) hspell
    have hseen (p : Path) : p ∈ verdicts.map (·.path.normalize) ↔ p ∈ verdicts'.map (·.path.normalize) := by
      rw [← hpaths, (hperm.map _).mem_iff]
    simp only [RunMode.events, RunMode.unmatched, hseen]

theorem RunMode.expecting_congr {X Y : List Path} (h : SamePlaces X Y) : expecting X = expecting Y :=
  congrArg RunMode.test (pathSet_congr h.mem_map_normalize_iff)

/-- Normalizing a normalized path changes nothing, and paths are normalized to one exactly if they have the same
components but for single dots, which is exactly if one is the other with single dots, doubled slashes and slashes at the
end put in or left out. A test run is decided by no more than that: its verdicts may come in any order, its expectations
in any order and any number of times, and all of them in any spelling. The run passes as before, as many files fail, the
same expectations are warned about in the same order, and each verdict has its error as before, in its new spelling. -/
theorem RunMode.evaluate_rearranged :
    (∀ p : Path, p.normalize.normalize = p.normalize) ∧
    (∀ p q : Path,
      (p.normalize = q.normalize ↔ p.components.filter (· ≠ .current) = q.components.filter (· ≠ .current)) ∧
      (p.normalize = q.normalize ↔ p.Respelled q)) ∧
    ∀ (X Y : List Path) (verdicts moved verdicts' : List FileVerdict), SamePlaces X Y → verdicts.Perm moved →
      List.Forall₂ FileVerdict.Respelled moved verdicts' →
        SameDecision (.expecting X) (.expecting Y) verdicts moved verdicts' := by
  refine ⟨Path.normalize_normalize, fun p q => ⟨Path.normalize_eq_normalize_iff, ?_⟩, ?_⟩
  · rw [Path.normalize_eq_normalize_iff, Path.respelled_iff]
  · intro X Y verdicts moved verdicts' hplaces hperm hspell
    rw [← expecting_congr hplaces]
    exact sameDecision_test _ hperm hspell

/-- A file that should have failed and one that should have passed change places, and one expectation is given twice. -/
theorem RunMode.evaluate_rearranged_swapped :
    let broken := Diagnostic.io "File is not valid UTF-8 (invalid byte at offset 0)"
    let verdicts : List FileVerdict := [⟨.ofString "a/b.html", false, [broken]⟩, ⟨.ofString "./c.html", true, []⟩]
    let verdicts' : List FileVerdict := [⟨.ofString "c.html//", true, []⟩, ⟨.ofString "./a/./b.html", false, [broken]⟩]
    let X := [Path.ofString "c.html", .ofString "/d"]
    let Y := [Path.ofString "//d/", .ofString "./c.html", .ofString "/./d"]
    SamePlaces X Y ∧ SameDecision (.expecting X) (.expecting Y) verdicts verdicts.reverse verdicts' := by
  intro broken verdicts verdicts' X Y
  have hplaces : SamePlaces X Y := by decide
  have hspell : List.Forall₂ FileVerdict.Respelled verdicts.reverse verdicts' :=
    .cons ⟨by decide, rfl, rfl⟩ (.cons ⟨by decide, rfl, rfl⟩ .nil)
  exact ⟨hplaces, evaluate_rearranged.2.2 X Y verdicts _ verdicts' hplaces verdicts.reverse_perm.symm hspell⟩

end

end TagLint
