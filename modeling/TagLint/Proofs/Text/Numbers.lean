import Mathlib.Data.List.Forall2
import Mathlib.Data.Nat.Digits.Defs
import Mathlib.Tactic.IntervalCases
import TagLint.Text.Digits
/-!
# Digits and the numbers they write

A number is written when each digit has its value and counts as much as its place says (`Digits.Writes`). Reading a
word finds this number, however many digits there are, and finds none exactly if there is none or if it does not fit
into the word (`Digits.word?_eq_some_iff`).
-/

namespace TagLint.Digits

/-! ## One digit -/

/-- The characters that stand for a value: decimal digits below ten, and from there on letters of either case. -/
def IsDigitOf (d : Nat) (c : Char) : Prop :=
  "0123456789abcdef".toList[d]? = some c ∨ "0123456789ABCDEF".toList[d]? = some c

instance (d : Nat) (c : Char) : Decidable (IsDigitOf d c) := inferInstanceAs (Decidable (_ ∨ _))

theorem value?_of_isDigitOf {d : Nat} {c : Char} (h : IsDigitOf d c) : value? 16 c = some d := by
  have hd : d < 16 := by rcases h with h | h <;> exact (List.getElem?_eq_some_iff.1 h).1
  interval_cases d <;> rcases h with h | h <;> (obtain rfl := Option.some.inj h; rfl)

theorem toNat_lt_of_value? {d : Nat} {c : Char} (h : value? 16 c = some d) : c.toNat < 128 := by
  refine Nat.lt_of_not_le fun hc => ?_
  have hbehind (last : Char) (hlast : last.toNat < 128) : ¬ c ≤ last := fun hle =>
    Nat.not_lt.2 hc (Nat.lt_of_le_of_lt (UInt32.le_iff_toNat_le.1 hle) hlast)
  simp [value?, hbehind '9' (by decide), hbehind 'f' (by decide), hbehind 'F' (by decide)] at h

theorem isDigitOf_of_value? {d : Nat} {c : Char} (h : value? 16 c = some d) : IsDigitOf d c := by
  have hall : ∀ n < 128, ∀ d ∈ value? 16 (.ofNat n), IsDigitOf d (.ofNat n) := by decide +kernel
  have hc := hall c.toNat (toNat_lt_of_value? h)
  rw [Char.ofNat_toNat] at hc
  exact hc d h

theorem value?_eq_some_iff {base d : Nat} {c : Char} (hb : base ≤ 16) :
    value? base c = some d ↔ d < base ∧ IsDigitOf d c := by
  have hsixteen : IsDigitOf d c ↔ value? 16 c = some d := ⟨value?_of_isDigitOf, isDigitOf_of_value?⟩
  rw [hsixteen]
  unfold value?
  grind

/-! ## Numbers -/

/-- Digits write a number in a base, that of the highest place first. -/
def Writes (base : Nat) (digits : List Char) (n : Nat) : Prop :=
  digits ≠ [] ∧ ∃ values, List.Forall₂ (fun d c => d < base ∧ IsDigitOf d c) values digits ∧
    n = Nat.ofDigits base values.reverse

theorem Writes.forall_mem {base n : Nat} {digits : List Char} (h : Writes base digits n) :
    ∀ c ∈ digits, ∃ d, d < base ∧ IsDigitOf d c := by
  obtain ⟨-, values, hvalues, -⟩ := h
  induction hvalues with
  | nil => simp
  | cons hd _ ih =>
    intro c hc
    rcases List.mem_cons.1 hc with rfl | hc
    · exact ⟨_, hd⟩
    · exact ih c hc

/-- Zeros in front change no number. -/
theorem Writes.zeros {base n : Nat} {digits : List Char} (h : Writes base digits n) (hb : 0 < base) (count : Nat) :
    Writes base (List.replicate count '0' ++ digits) n := by
  induction count with
  | zero => exact h
  | succ count ih =>
    obtain ⟨-, values, hvalues, rfl⟩ := ih
    refine ⟨by simp [List.replicate_succ], 0 :: values, .cons ⟨hb, .inl rfl⟩ hvalues, ?_⟩
    rw [List.reverse_cons, Nat.ofDigits_append_zero]

theorem numberFrom?_eq_some_iff {base read n : Nat} {digits : List Char} (hb : base ≤ 16) :
    numberFrom? base read digits = some n ↔
      ∃ values, List.Forall₂ (fun d c => d < base ∧ IsDigitOf d c) values digits ∧
        n = read * base ^ values.length + Nat.ofDigits base values.reverse := by
  induction digits generalizing read with
  | nil => simp [numberFrom?, eq_comm]
  | cons c digits ih =>
    rw [numberFrom?]
    -- The digit read moves all that was read before it up by one place.
    have hplace (d : Nat) (values : List Nat) :
        (read * base + d) * base ^ values.length + Nat.ofDigits base values.reverse =
          read * base ^ (d :: values).length + Nat.ofDigits base (d :: values).reverse := by
      rw [Nat.ofDigits_reverse_cons, List.length_cons, pow_succ]
      ring
    constructor
    · intro h
      split at h
      next d hd =>
        obtain ⟨values, hvalues, rfl⟩ := ih.1 h
        exact ⟨d :: values, .cons ((value?_eq_some_iff hb).1 hd) hvalues, hplace d values⟩
      next => cases h
    · rintro ⟨values, hvalues, rfl⟩
      cases hvalues with
      | @cons d _ values _ hd hvalues =>
        rw [(value?_eq_some_iff hb).2 hd]
        exact ih.2 ⟨values, hvalues, (hplace d values).symm⟩

theorem number?_eq_some_iff {base n : Nat} {digits : List Char} (hb : base ≤ 16) :
    number? base digits = some n ↔ Writes base digits n := by
  cases digits with
  | nil => simp [number?, Writes]
  | cons c digits =>
    rw [number?, numberFrom?_eq_some_iff hb]
    simp [Writes]

/-! ## Words -/

theorem le_of_numberFrom? {base read n : Nat} {digits : List Char} (hb : 0 < base)
    (h : numberFrom? base read digits = some n) : read ≤ n := by
  induction digits generalizing read with
  | nil =>
    obtain rfl := Option.some.inj h
    exact Nat.le_refl _
  | cons c digits ih =>
    rw [numberFrom?] at h
    split at h
    next d _ =>
      have hle := ih h
      have hmul := Nat.le_mul_of_pos_right read hb
      omega
    next => cases h

/-- Reading on, a word never shrinks, so what does not fit at one digit does not fit in the end. -/
theorem wordFrom?_eq_some_iff {base : Nat} {read w : UInt32} {digits : List Char} (hb : 0 < base) :
    wordFrom? base read digits = some w ↔ numberFrom? base read.toNat digits = some w.toNat := by
  induction digits generalizing read with
  | nil => simp [wordFrom?, numberFrom?, UInt32.toNat_inj]
  | cons c digits ih =>
    rw [wordFrom?, numberFrom?]
    cases value? base c with
    | none => simp
    | some d =>
      dsimp only
      split
      next hfits =>
        rw [ih, UInt32.toNat_ofNat_of_lt' hfits]
      next hfits =>
        refine ⟨nofun, fun h => ?_⟩
        have hle := le_of_numberFrom? hb h
        exact absurd (Nat.lt_of_le_of_lt hle w.toNat_lt) hfits

/-- A word is read exactly if digits write its number. -/
theorem word?_eq_some_iff {base : Nat} {digits : List Char} {w : UInt32} (hb : 0 < base) (hb' : base ≤ 16) :
    word? base digits = some w ↔ Writes base digits w.toNat := by
  rw [← number?_eq_some_iff hb']
  cases digits with
  | nil => simp [word?, number?]
  | cons c digits =>
    rw [word?, number?, wordFrom?_eq_some_iff hb]
    rfl

end TagLint.Digits
