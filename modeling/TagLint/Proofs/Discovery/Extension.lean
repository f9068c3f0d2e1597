import Mathlib.Data.List.Forall2
import TagLint.Discovery
import TagLint.Proofs.Text.Runs
/-!
# File names and extensions

An extension stands behind the last dot of a name, and something stands before that dot
(`Path.extension?_eq_some_iff`). So a name has one of the extensions asked for exactly if it ends in a dot and that
extension, in letters of either case (`Discovery.hasExtension_iff`).
-/

namespace TagLint

/-- The extension of a name stands behind its last dot, and something stands before that. -/
theorem Path.extension?_eq_some_iff {name found : List UInt8} :
    extension? name = some found ↔ ∃ stem, stem ≠ [] ∧ name = stem ++ 0x2E :: found ∧ 0x2E ∉ found := by
  have hspan := span_iff (fun b : UInt8 => decide (b ≠ 0x2E)) name.reverse
  simp only [extension?]
  constructor
  · intro h
    obtain ⟨hname, hbehind, hdot⟩ := (hspan _ _).1 ⟨rfl, rfl⟩
    generalize name.reverse.takeWhile (fun b => decide (b ≠ 0x2E)) = behind at h hname hbehind
    split at h
    next d b stem hrest =>
      obtain rfl := Option.some.inj h
      rw [hrest] at hname hdot
      obtain rfl : d = 0x2E := by simpa using hdot d rfl
      refine ⟨(b :: stem).reverse, by simp, ?_, fun hm => ?_⟩
      · rw [← List.reverse_reverse name, hname]
        simp
      · simpa using hbehind _ (List.mem_reverse.1 hm)
    next => cases h
  · rintro ⟨stem, hstem, rfl, hfound⟩
    obtain ⟨b, more, hmore⟩ := List.exists_cons_of_ne_nil (List.reverse_ne_nil_iff.2 hstem)
    have hbehind : ∀ c ∈ found.reverse, decide (c ≠ 0x2E) = true := by
      intro c hc
      rw [decide_eq_true_eq]
      rintro rfl
      exact hfound (List.mem_reverse.1 hc)
    obtain ⟨htake, hdrop⟩ := (hspan found.reverse (0x2E :: b :: more)).2 ⟨by simp [hmore], hbehind, by simp⟩
    rw [htake, hdrop, List.reverse_reverse]

namespace Discovery

/-- Two bytes are the same, or they are one ASCII letter in its two cases. -/
def SameLetter (a b : UInt8) : Prop :=
  a = b ∨ (0x41 ≤ a ∧ a ≤ 0x5A ∧ b = a + 0x20) ∨ (0x41 ≤ b ∧ b ≤ 0x5A ∧ a = b + 0x20)

/-- A name ends in a dot and one of the extensions, in letters of either case, and something stands before the dot. -/
def EndsIn (extensions : List String) (name : List UInt8) : Prop :=
  ∃ e ∈ extensions, ∃ stem found, stem ≠ [] ∧ name = stem ++ 0x2E :: found ∧ 0x2E ∉ found ∧
    List.Forall₂ SameLetter (Path.ofString e).bytes found

theorem toNat_lowerByte (b : UInt8) :
    (lowerByte b).toNat = if 0x41 ≤ b.toNat ∧ b.toNat ≤ 0x5A then b.toNat + 0x20 else b.toNat := by
  simp only [lowerByte, UInt8.le_iff_toNat_le, UInt8.reduceToNat]
  split
  next h =>
    simp only [UInt8.toNat_add, UInt8.reduceToNat]
    omega
  next => rfl

theorem lowerByte_eq_iff {a b : UInt8} : lowerByte a = lowerByte b ↔ SameLetter a b := by
  have ha := a.toNat_lt
  have hb := b.toNat_lt
  simp only [SameLetter, ← UInt8.toNat_inj, toNat_lowerByte, UInt8.toNat_add, UInt8.le_iff_toNat_le, UInt8.reduceToNat]
  split <;> split <;> omega

theorem sameIgnoringCase_iff {s t : List UInt8} : sameIgnoringCase s t = true ↔ List.Forall₂ SameLetter s t := by
  rw [sameIgnoringCase, beq_iff_eq, ← List.forall₂_eq_eq_eq, List.forall₂_map_left_iff, List.forall₂_map_right_iff]
  simp only [lowerByte_eq_iff]

theorem hasExtension_iff {extensions : List String} {name : List UInt8} :
    hasExtension extensions name = true ↔ EndsIn extensions name := by
  unfold hasExtension EndsIn
  split
  next hnone =>
    refine ⟨nofun, ?_⟩
    rintro ⟨e, -, stem, found, hstem, hname, hfound, -⟩
    rw [Path.extension?_eq_some_iff.2 ⟨stem, hstem, hname, hfound⟩] at hnone
    cases hnone
  next found hsome =>
    rw [List.any_eq_true]
    refine exists_congr fun e => and_congr_right fun _ => ?_
    rw [sameIgnoringCase_iff]
    constructor
    · intro h
      obtain ⟨stem, hstem, hname, hfound⟩ := Path.extension?_eq_some_iff.1 hsome
      exact ⟨stem, found, hstem, hname, hfound, h⟩
    · rintro ⟨stem, found', hstem, hname, hfound, h⟩
      rw [Path.extension?_eq_some_iff.2 ⟨stem, hstem, hname, hfound⟩] at hsome
      exact Option.some.inj hsome ▸ h

end Discovery

end TagLint
