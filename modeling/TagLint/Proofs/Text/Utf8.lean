import Mathlib.Algebra.Group.Nat.Defs
import Mathlib.Data.List.Basic
import Mathlib.Data.List.Induction
import TagLint.Text.Utf8
/-!
# What UTF-8 decodes to

Behind its first byte a character has six bits of its number in each byte. An unfinished character is known by the
numbers that it may still turn out to have, and each of them is written as the bytes so far and those to come. So the
first item of bytes is a character exactly if the bytes begin with its encoding (`items_eq_cons_iff`), and the text of
bytes is the one of which they are the encoding (`decode_eq_ok_iff`). If they are the encoding of none, it is told how
many of them from the start are one (`validUpTo_of_decode`).
-/

namespace TagLint.Utf8

/-- The last `k` bytes of a character of several bytes. -/
def continuation : Nat → Nat → List UInt8
  | 0, _ => []
  | k + 1, n => UInt8.ofNat (0x80 + n / 64 ^ k % 64) :: continuation k n

/-- The character may turn out to have the number `n`. -/
structure Unfinished.Allows (p : Unfinished) (n : Nat) : Prop where
  missing : 0 < p.missing
  value : n / 64 ^ p.missing = p.value
  low : p.low.toNat ≤ 0x80 + n / 64 ^ (p.missing - 1) % 64
  high : 0x80 + n / 64 ^ (p.missing - 1) % 64 ≤ p.high.toNat

/-- The bytes `front` have been read of a character, whichever of the numbers that it may have it has. -/
structure Unfinished.Follows (p : Unfinished) (front : List UInt8) : Prop where
  missing : 0 < p.missing
  low : 0x80 ≤ p.low.toNat
  high : p.high.toNat ≤ 0xBF
  encode : ∀ n, p.Allows n → n.isValidChar ∧
    String.utf8EncodeChar (Char.ofNat n) = front ++ continuation p.missing n

/-! ## The bytes of a character -/

theorem toNat_ofNat {n : Nat} (h : n.isValidChar) : (Char.ofNat n).val.toNat = n := by
  rw [Char.ofNat, dif_pos h]
  rfl

theorem encode_one {n : Nat} (h : n < 0x80) : String.utf8EncodeChar (Char.ofNat n) = [UInt8.ofNat n] := by
  rw [String.utf8EncodeChar, toNat_ofNat (.inl (by omega)), if_pos (by omega)]

theorem utf8EncodeChar_ascii {c : Char} (h : c.val.toNat < 0x80) :
    String.utf8EncodeChar c = [UInt8.ofNat c.val.toNat] := by
  rw [← encode_one h, show Char.ofNat c.val.toNat = c from Char.ofNat_toNat c]

theorem toNat_ofNat_ascii {n : Nat} (h : n < 0x80) : (UInt8.ofNat n).toNat = n := by
  rw [UInt8.toNat_ofNat', Nat.mod_eq_of_lt (by omega)]

theorem encode_two {n : Nat} (h : 0x80 ≤ n) (h' : n < 0x800) :
    String.utf8EncodeChar (Char.ofNat n) = UInt8.ofNat (0xC0 + n / 64) :: continuation 1 n := by
  rw [String.utf8EncodeChar, toNat_ofNat (.inl (by omega)), if_neg (by omega), if_pos (by omega), continuation,
    continuation, Nat.pow_zero, Nat.div_one, Nat.add_comm 0xC0, Nat.add_comm 0x80,
    Nat.mod_eq_of_lt (show n / 64 < 32 by omega)]

theorem encode_three {n : Nat} (hn : n.isValidChar) (h : 0x800 ≤ n) (h' : n < 0x10000) :
    String.utf8EncodeChar (Char.ofNat n) = UInt8.ofNat (0xE0 + n / 64 ^ 2) :: continuation 2 n := by
  have htwo : 64 ^ 2 = 4096 := rfl
  rw [String.utf8EncodeChar, toNat_ofNat hn, if_neg (by omega), if_neg (by omega), if_pos (by omega), continuation,
    continuation, continuation, Nat.pow_zero, Nat.div_one, Nat.pow_one, htwo, Nat.add_comm 0xE0, Nat.add_comm 0x80,
    Nat.add_comm 0x80, Nat.mod_eq_of_lt (show n / 4096 < 16 by omega)]

theorem encode_four {n : Nat} (hn : n.isValidChar) (h : 0x10000 ≤ n) :
    String.utf8EncodeChar (Char.ofNat n) = UInt8.ofNat (0xF0 + n / 64 ^ 3) :: continuation 3 n := by
  have htwo : 64 ^ 2 = 4096 := rfl
  have hthree : 64 ^ 3 = 262144 := rfl
  have hlt : n < 0x110000 := by
    rcases hn with hn | ⟨-, hn⟩
    · omega
    · exact hn
  rw [String.utf8EncodeChar, toNat_ofNat hn, if_neg (by omega), if_neg (by omega), if_neg (by omega), continuation,
    continuation, continuation, continuation, Nat.pow_zero, Nat.div_one, Nat.pow_one, htwo, hthree, Nat.add_comm 0xF0,
    Nat.add_comm 0x80, Nat.add_comm 0x80, Nat.add_comm 0x80, Nat.mod_eq_of_lt (show n / 262144 < 8 by omega)]

/-! ## The first byte of a character -/

theorem beginWith_stray : ∀ v < 0x42, beginWith (UInt8.ofNat (0x80 + v)) = ([none], none) := by
  decide

theorem beginWith_excess : ∀ v < 11, beginWith (UInt8.ofNat (0xF5 + v)) = ([none], none) := by
  decide

theorem beginWith_two : ∀ v < 32, 2 ≤ v → beginWith (UInt8.ofNat (0xC0 + v)) = ([], some ⟨1, 0x80, 0xBF, v⟩) := by
  decide

theorem beginWith_three : ∀ v < 16, beginWith (UInt8.ofNat (0xE0 + v)) =
    ([], some ⟨2, if v = 0 then 0xA0 else 0x80, if v = 0xD then 0x9F else 0xBF, v⟩) := by
  decide

theorem beginWith_four : ∀ v < 5, beginWith (UInt8.ofNat (0xF0 + v)) =
    ([], some ⟨3, if v = 0 then 0x90 else 0x80, if v = 4 then 0x8F else 0xBF, v⟩) := by
  decide

theorem follows_two {v : Nat} (hv : 2 ≤ v) (hv' : v < 32) :
    Unfinished.Follows ⟨1, 0x80, 0xBF, v⟩ [UInt8.ofNat (0xC0 + v)] where
  missing := Nat.one_pos
  low := Nat.le_refl _
  high := Nat.le_refl _
  encode := by
    rintro n ⟨-, hn, -, -⟩
    simp only [Nat.pow_one] at hn
    refine ⟨.inl (by omega), ?_⟩
    rw [encode_two (by omega) (by omega), hn]
    rfl

theorem follows_three {v : Nat} (hv : v < 16) :
    Unfinished.Follows ⟨2, if v = 0 then 0xA0 else 0x80, if v = 0xD then 0x9F else 0xBF, v⟩
      [UInt8.ofNat (0xE0 + v)] where
  missing := Nat.two_pos
  low := by simp only; split <;> decide
  high := by simp only; split <;> decide
  encode := by
    rintro n ⟨-, hvalue, hlow, hhigh⟩
    have hn : n / 4096 = v := hvalue
    simp only [Nat.reducePow, Nat.reduceSub] at hlow hhigh
    have hbounds : 0x800 ≤ n ∧ ¬(0xD800 ≤ n ∧ n < 0xE000) := by
      split at hlow <;> split at hhigh <;> simp only [UInt8.reduceToNat] at hlow hhigh <;> omega
    have hvalid : n.isValidChar := by
      unfold Nat.isValidChar
      omega
    refine ⟨hvalid, ?_⟩
    rw [encode_three hvalid hbounds.1 (by omega), show n / 64 ^ 2 = v from hvalue]
    rfl

theorem follows_four {v : Nat} (hv : v < 5) :
    Unfinished.Follows ⟨3, if v = 0 then 0x90 else 0x80, if v = 4 then 0x8F else 0xBF, v⟩
      [UInt8.ofNat (0xF0 + v)] where
  missing := Nat.zero_lt_succ 2
  low := by simp only; split <;> decide
  high := by simp only; split <;> decide
  encode := by
    rintro n ⟨-, hvalue, hlow, hhigh⟩
    have hn : n / 262144 = v := hvalue
    simp only [Nat.reducePow, Nat.reduceSub] at hlow hhigh
    have hbounds : 0x10000 ≤ n ∧ n < 0x110000 := by
      split at hlow <;> split at hhigh <;> simp only [UInt8.reduceToNat] at hlow hhigh <;> omega
    have hvalid : n.isValidChar := .inr (by omega)
    refine ⟨hvalid, ?_⟩
    rw [encode_four hvalid hbounds.1, show n / 64 ^ 3 = v from hvalue]
    rfl

/-- What the first byte of a character yields. -/
theorem beginWith_cases (b : UInt8) :
    (∃ c, beginWith b = ([some c], none) ∧ String.utf8EncodeChar c = [b]) ∨ beginWith b = ([none], none) ∨
      ∃ p : Unfinished, beginWith b = ([], some p) ∧ p.Follows [b] := by
  obtain ⟨n, hn, rfl⟩ : ∃ n < 256, b = UInt8.ofNat n := ⟨b.toNat, b.toNat_lt, UInt8.ofNat_toNat.symm⟩
  rcases Nat.lt_or_ge n 0x80 with h80 | h80
  · have hbyte := toNat_ofNat_ascii h80
    have hlt : UInt8.ofNat n < 0x80 := UInt8.lt_iff_toNat_lt.2 (hbyte.symm ▸ h80)
    exact .inl ⟨_, by rw [beginWith, if_pos hlt, hbyte], encode_one h80⟩
  rcases Nat.lt_or_ge n 0xC2 with hC2 | hC2
  · obtain ⟨v, rfl⟩ := Nat.exists_eq_add_of_le h80
    exact .inr (.inl (beginWith_stray v (by omega)))
  rcases Nat.lt_or_ge n 0xE0 with hE0 | hE0
  · obtain ⟨v, rfl⟩ := Nat.exists_eq_add_of_le (Nat.le_trans (by decide : 0xC0 ≤ 0xC2) hC2)
    exact .inr (.inr ⟨_, beginWith_two v (by omega) (by omega), follows_two (by omega) (by omega)⟩)
  rcases Nat.lt_or_ge n 0xF0 with hF0 | hF0
  · obtain ⟨v, rfl⟩ := Nat.exists_eq_add_of_le hE0
    exact .inr (.inr ⟨_, beginWith_three v (by omega), follows_three (by omega)⟩)
  rcases Nat.lt_or_ge n 0xF5 with hF5 | hF5
  · obtain ⟨v, rfl⟩ := Nat.exists_eq_add_of_le hF0
    exact .inr (.inr ⟨_, beginWith_four v (by omega), follows_four (by omega)⟩)
  · obtain ⟨v, rfl⟩ := Nat.exists_eq_add_of_le hF5
    exact .inr (.inl (beginWith_excess v (by omega)))

/-- The first byte of a character of several bytes leaves one unfinished that may turn out to be it. -/
theorem beginWith_encode {n : Nat} (hn : n.isValidChar) (h : 0x80 ≤ n) : ∃ (b : UInt8) (p : Unfinished),
    String.utf8EncodeChar (Char.ofNat n) = b :: continuation p.missing n ∧ beginWith b = ([], some p) ∧ p.Allows n := by
  unfold Nat.isValidChar at hn
  rcases Nat.lt_or_ge n 0x800 with h2 | h2
  · refine ⟨_, _, encode_two h h2, beginWith_two (n / 64) (by omega) (by omega), Nat.one_pos, ?_, ?_, ?_⟩
    all_goals simp only [Nat.pow_one, Nat.pow_zero, Nat.sub_self, UInt8.reduceToNat]
    all_goals omega
  rcases Nat.lt_or_ge n 0x10000 with h3 | h3
  · refine ⟨_, _, encode_three hn h2 h3, beginWith_three (n / 64 ^ 2) (by omega), Nat.two_pos, rfl, ?_, ?_⟩
    all_goals simp only [Nat.reduceSub, Nat.pow_one]
    all_goals split <;> simp only [UInt8.reduceToNat] <;> omega
  · refine ⟨_, _, encode_four hn h3, beginWith_four (n / 64 ^ 3) (by omega), Nat.zero_lt_succ 2, rfl, ?_, ?_⟩
    all_goals simp only [Nat.reduceSub]
    all_goals split <;> simp only [UInt8.reduceToNat] <;> omega

/-! ## The bytes behind the first -/

theorem itemsFrom_eq (unfinished : Option Unfinished) (before : List (Option Char)) (bytes : List UInt8) :
    itemsFrom unfinished before bytes = before.reverse ++ itemsFrom unfinished [] bytes := by
  induction bytes generalizing unfinished before with
  | nil => cases unfinished <;> simp [itemsFrom]
  | cons b bytes ih =>
    simp only [itemsFrom]
    rw [ih, ih _ ((step unfinished b).1.reverse ++ []), List.append_nil, List.reverse_append, List.append_assoc]

theorem itemsFrom_cons (unfinished : Option Unfinished) (b : UInt8) (bytes : List UInt8) :
    itemsFrom unfinished [] (b :: bytes) = (step unfinished b).1 ++ itemsFrom (step unfinished b).2 [] bytes := by
  simp only [itemsFrom]
  rw [itemsFrom_eq, List.append_nil, List.reverse_reverse]

theorem items_cons (b : UInt8) (bytes : List UInt8) :
    items (b :: bytes) = (beginWith b).1 ++ itemsFrom (beginWith b).2 [] bytes :=
  itemsFrom_cons none b bytes

theorem toNat_continuation (k n : Nat) : (UInt8.ofNat (0x80 + n / 64 ^ k % 64)).toNat = 0x80 + n / 64 ^ k % 64 := by
  rw [UInt8.toNat_ofNat', Nat.mod_eq_of_lt (by omega)]

theorem div_pow_succ (n k : Nat) : n / 64 ^ (k + 1) * 64 + n / 64 ^ k % 64 = n / 64 ^ k := by
  rw [Nat.pow_succ, ← Nat.div_div_eq_div_mul, Nat.div_add_mod']

theorem step_of_mem {p : Unfinished} {b : UInt8} (hl : p.low ≤ b) (hh : b ≤ p.high) :
    step (some p) b =
      if p.missing = 1 then ([some (Char.ofNat (p.value * 64 + (b.toNat - 0x80)))], none)
      else ([], some ⟨p.missing - 1, 0x80, 0xBF, p.value * 64 + (b.toNat - 0x80)⟩) := by
  simp only [step, hl, hh, and_self, if_true]

/-- The next byte of a character that an unfinished one may turn out to be. -/
theorem step_continuation {k n : Nat} {low high : UInt8} {value : Nat}
    (h : Unfinished.Allows ⟨k + 1, low, high, value⟩ n) :
    step (some ⟨k + 1, low, high, value⟩) (UInt8.ofNat (0x80 + n / 64 ^ k % 64)) =
      if k = 0 then ([some (Char.ofNat n)], none) else ([], some ⟨k, 0x80, 0xBF, n / 64 ^ k⟩) := by
  obtain ⟨-, hvalue, hlow, hhigh⟩ := h
  simp only at hvalue
  subst hvalue
  have hb := toNat_continuation k n
  rw [step_of_mem (UInt8.le_iff_toNat_le.2 (Nat.le_trans hlow (Nat.le_of_eq hb.symm)))
    (UInt8.le_iff_toNat_le.2 (Nat.le_trans (Nat.le_of_eq hb) hhigh))]
  simp only [hb, Nat.add_sub_cancel_left, div_pow_succ, Nat.add_eq_right, Nat.add_sub_cancel]
  split
  next hk => rw [hk, Nat.pow_zero, Nat.div_one]
  next => rfl

theorem step_of_notMem {p : Unfinished} {b : UInt8} (h : ¬(p.low ≤ b ∧ b ≤ p.high)) :
    step (some p) b = (none :: (beginWith b).1, (beginWith b).2) := by
  simp only [step, h, if_false]

/-- The bytes that are missing finish the character. -/
theorem itemsFrom_continuation {p : Unfinished} {n : Nat} (h : p.Allows n) (rest : List UInt8) :
    itemsFrom (some p) [] (continuation p.missing n ++ rest) = some (Char.ofNat n) :: items rest := by
  obtain ⟨missing, low, high, value⟩ := p
  obtain ⟨k, rfl⟩ : ∃ k, missing = k + 1 := Nat.exists_eq_add_one_of_ne_zero (Nat.ne_of_gt h.missing)
  induction k generalizing low high value with
  | zero =>
    rw [continuation, List.cons_append, itemsFrom_cons, step_continuation h, if_pos rfl]
    rfl
  | succ k ih =>
    have hnext : Unfinished.Allows ⟨k + 1, 0x80, 0xBF, n / 64 ^ (k + 1)⟩ n := by
      refine ⟨Nat.succ_pos k, rfl, ?_, ?_⟩
      all_goals simp only [UInt8.reduceToNat]
      all_goals omega
    rw [continuation, List.cons_append, itemsFrom_cons, step_continuation h, if_neg (Nat.add_one_ne_zero k)]
    exact ih _ _ _ hnext

theorem Unfinished.Follows.allows {p : Unfinished} {front : List UInt8} {b : UInt8} {k n : Nat} (h : p.Follows front)
    (hl : p.low ≤ b) (hh : b ≤ p.high) (hk : p.missing = k + 1) (hn : n / 64 ^ k = p.value * 64 + (b.toNat - 0x80)) :
    p.Allows n ∧ UInt8.ofNat (0x80 + n / 64 ^ k % 64) = b := by
  obtain ⟨-, hlow, hhigh, -⟩ := h
  rw [UInt8.le_iff_toNat_le] at hl hh
  have hbits : 0x80 + n / 64 ^ k % 64 = b.toNat := by omega
  refine ⟨⟨by omega, ?_, ?_, ?_⟩, by rw [hbits, UInt8.ofNat_toNat]⟩
  · rw [hk, Nat.pow_succ, ← Nat.div_div_eq_div_mul, hn]
    omega
  · rw [hk, Nat.add_sub_cancel, hbits]
    exact hl
  · rw [hk, Nat.add_sub_cancel, hbits]
    exact hh

/-- A byte between the bounds goes on with each character that the unfinished one may turn out to be. -/
theorem Unfinished.Follows.step {p : Unfinished} {front : List UInt8} {b : UInt8} (h : p.Follows front)
    (hl : p.low ≤ b) (hh : b ≤ p.high) :
    (∃ c, Utf8.step (some p) b = ([some c], none) ∧ String.utf8EncodeChar c = front ++ [b]) ∨
      ∃ q : Unfinished, Utf8.step (some p) b = ([], some q) ∧ q.Follows (front ++ [b]) := by
  obtain ⟨k, hk⟩ : ∃ k, p.missing = k + 1 := Nat.exists_eq_add_one_of_ne_zero (Nat.ne_of_gt h.missing)
  rw [step_of_mem hl hh]
  split
  next hone =>
    obtain rfl : k = 0 := by omega
    refine .inl ⟨_, rfl, ?_⟩
    obtain ⟨hallows, hb⟩ := h.allows hl hh hk (Nat.div_one _)
    rw [(h.encode _ hallows).2, hk, continuation, hb]
    rfl
  next hmore =>
    refine .inr ⟨_, rfl, by simp only; omega, Nat.le_refl _, Nat.le_refl _, fun n hn => ?_⟩
    have hvalue : n / 64 ^ k = p.value * 64 + (b.toNat - 0x80) := by
      have := hn.value
      rwa [hk, Nat.add_sub_cancel] at this
    obtain ⟨hallows, hb⟩ := h.allows hl hh hk hvalue
    obtain ⟨hvalid, hencode⟩ := h.encode n hallows
    refine ⟨hvalid, ?_⟩
    rw [hencode, hk, continuation, hb, List.append_assoc, Nat.add_sub_cancel]
    rfl

/-- If an unfinished character comes to its end, the bytes are its encoding and those behind it. -/
theorem Unfinished.Follows.bytes_eq {p : Unfinished} {front bytes : List UInt8} {c : Char} {more : List (Option Char)}
    (h : p.Follows front) (hitems : itemsFrom (some p) [] bytes = some c :: more) :
    ∃ rest, front ++ bytes = String.utf8EncodeChar c ++ rest ∧ items rest = more := by
  induction bytes generalizing p front with
  | nil => cases hitems
  | cons b bytes ih =>
    rw [itemsFrom_cons] at hitems
    by_cases hb : p.low ≤ b ∧ b ≤ p.high
    · rcases h.step hb.1 hb.2 with ⟨d, hstep, hencode⟩ | ⟨q, hstep, hq⟩ <;> rw [hstep] at hitems
      · obtain ⟨rfl, hmore⟩ : d = c ∧ items bytes = more := by simpa [items] using hitems
        exact ⟨bytes, by rw [hencode, List.append_assoc]; rfl, hmore⟩
      · obtain ⟨rest, heq, hrest⟩ := ih hq hitems
        exact ⟨rest, by rw [← heq, List.append_assoc]; rfl, hrest⟩
    · rw [step_of_notMem hb] at hitems
      simp at hitems

/-! ## Characters of bytes -/

/-- The first item of bytes is a character exactly if the bytes begin with its encoding. -/
theorem items_eq_cons_iff {bytes : List UInt8} {c : Char} {more : List (Option Char)} :
    items bytes = some c :: more ↔ ∃ rest, bytes = String.utf8EncodeChar c ++ rest ∧ items rest = more := by
  constructor
  · intro h
    cases bytes with
    | nil => cases h
    | cons b bytes =>
      rw [items_cons] at h
      rcases beginWith_cases b with ⟨d, hb, hencode⟩ | hb | ⟨p, hb, hp⟩ <;> rw [hb] at h
      · obtain ⟨rfl, hmore⟩ : d = c ∧ items bytes = more := by simpa [items] using h
        exact ⟨bytes, by rw [hencode]; rfl, hmore⟩
      · simp at h
      · exact hp.bytes_eq h
  · rintro ⟨rest, rfl, rfl⟩
    have hchar : Char.ofNat c.val.toNat = c := Char.ofNat_toNat c
    rcases Nat.lt_or_ge c.val.toNat 0x80 with hc | hc
    · have hbyte := toNat_ofNat_ascii hc
      have hlt : UInt8.ofNat c.val.toNat < 0x80 := UInt8.lt_iff_toNat_lt.2 (hbyte.symm ▸ hc)
      rw [utf8EncodeChar_ascii hc, List.singleton_append, items_cons, beginWith, if_pos hlt, hbyte, hchar]
      rfl
    · obtain ⟨b, p, hencode, hb, hp⟩ := beginWith_encode c.valid hc
      have hrest := itemsFrom_continuation hp rest
      rw [hchar] at hencode hrest
      rw [hencode, List.cons_append, items_cons, hb]
      exact hrest

theorem itemsFrom_unfinished_ne_nil (p : Unfinished) (bytes : List UInt8) : itemsFrom (some p) [] bytes ≠ [] := by
  induction bytes generalizing p with
  | nil => exact List.cons_ne_nil _ _
  | cons b bytes ih =>
    rw [itemsFrom_cons]
    by_cases hb : p.low ≤ b ∧ b ≤ p.high
    · rw [step_of_mem hb.1 hb.2]
      split
      next => exact List.cons_ne_nil _ _
      next => exact ih _
    · rw [step_of_notMem hb]
      exact List.cons_ne_nil _ _

theorem items_eq_nil_iff {bytes : List UInt8} : items bytes = [] ↔ bytes = [] := by
  constructor
  · intro h
    cases bytes with
    | nil => rfl
    | cons b bytes =>
      rw [items_cons] at h
      rcases beginWith_cases b with ⟨d, hb, -⟩ | hb | ⟨p, hb, -⟩ <;> rw [hb] at h
      · cases h
      · cases h
      · exact absurd h (itemsFrom_unfinished_ne_nil p bytes)
  · rintro rfl
    rfl

/-- The items of bytes begin with the characters of a text exactly if the bytes begin with its encoding. -/
theorem items_eq_append_iff {bytes : List UInt8} {text : List Char} {more : List (Option Char)} :
    items bytes = text.map some ++ more ↔ ∃ rest, bytes = encode text ++ rest ∧ items rest = more := by
  induction text generalizing bytes with
  | nil => simp [encode]
  | cons c text ih =>
    rw [List.map_cons, List.cons_append, items_eq_cons_iff]
    constructor
    · rintro ⟨rest, rfl, hrest⟩
      obtain ⟨left, rfl, hleft⟩ := ih.1 hrest
      exact ⟨left, by rw [encode, encode, List.flatMap_cons, List.append_assoc], hleft⟩
    · rintro ⟨left, rfl, hleft⟩
      exact ⟨encode text ++ left, by rw [encode, encode, List.flatMap_cons, List.append_assoc], ih.2 ⟨left, rfl, hleft⟩⟩

theorem decode_of_items {bytes : List UInt8} {text : List Char} (h : items bytes = text.map some) :
    decode bytes = .ok text := by
  have hall : (text.map some).all Option.isSome = true := by simp
  have htake : (text.map some).takeWhile Option.isSome = text.map some := by
    rw [← List.append_nil (text.map some), List.takeWhile_append_of_pos (List.all_eq_true.1 hall)]
    rfl
  simp only [decode, h, hall, if_true, htake]
  simp

theorem exists_map_some {α : Type} {list : List (Option α)} (h : list.all Option.isSome = true) :
    ∃ l : List α, list = l.map some := by
  induction list with
  | nil => exact ⟨[], rfl⟩
  | cons o list ih =>
    obtain ⟨ho, hlist⟩ := List.all_cons.symm.trans h |> (Bool.and_eq_true _ _).mp
    obtain ⟨a, rfl⟩ := Option.isSome_iff_exists.1 ho
    obtain ⟨l, rfl⟩ := ih hlist
    exact ⟨a :: l, rfl⟩

theorem items_eq_iff {bytes : List UInt8} {text : List Char} : items bytes = text.map some ↔ bytes = encode text := by
  rw [← List.append_nil (text.map some), items_eq_append_iff]
  constructor
  · rintro ⟨rest, rfl, hrest⟩
    rw [items_eq_nil_iff.1 hrest, List.append_nil]
  · rintro rfl
    exact ⟨[], (List.append_nil _).symm, rfl⟩

/-- The text of bytes is the one of which they are the encoding. -/
theorem decode_eq_ok_iff {bytes : List UInt8} {text : List Char} : decode bytes = .ok text ↔ bytes = encode text := by
  rw [← items_eq_iff]
  refine ⟨fun h => ?_, decode_of_items⟩
  cases hall : (items bytes).all Option.isSome with
  | false =>
    simp only [decode, hall] at h
    cases h
  | true =>
    obtain ⟨t, ht⟩ := exists_map_some hall
    obtain rfl : t = text := Except.ok.inj ((decode_of_items ht).symm.trans h)
    exact ht

/-! ## Bytes of ASCII -/

theorem le_of_mem_continuation {k n : Nat} {b : UInt8} (h : b ∈ continuation k n) : 0x80 ≤ b.toNat := by
  induction k with
  | zero => cases h
  | succ k ih =>
    rcases List.mem_cons.1 h with rfl | h
    · rw [toNat_continuation]
      exact Nat.le_add_right _ _
    · exact ih h

/-- A character above ASCII has no byte of ASCII. -/
theorem le_of_mem_utf8EncodeChar {c : Char} {b : UInt8} (hc : 0x80 ≤ c.val.toNat) (hb : b ∈ String.utf8EncodeChar c) :
    0x80 ≤ b.toNat := by
  obtain ⟨first, p, hencode, hfirst, -⟩ := beginWith_encode c.valid hc
  have hchar : Char.ofNat c.val.toNat = c := Char.ofNat_toNat c
  rw [hchar] at hencode
  rw [hencode] at hb
  rcases List.mem_cons.1 hb with rfl | hb
  · rcases Nat.lt_or_ge b.toNat 0x80 with hlt | hge
    · rw [beginWith, if_pos (UInt8.lt_iff_toNat_lt.2 hlt)] at hfirst
      cases hfirst
    · exact hge
  · exact le_of_mem_continuation hb

/-- A byte of ASCII stands in the encoding of a text exactly where its character stands in the text. -/
theorem mem_encode_iff {a : Char} (ha : a.val.toNat < 0x80) {text : List Char} :
    UInt8.ofNat a.val.toNat ∈ encode text ↔ a ∈ text := by
  rw [encode, List.mem_flatMap]
  constructor
  · rintro ⟨c, hc, hb⟩
    rcases Nat.lt_or_ge c.val.toNat 0x80 with hlt | hge
    · rw [utf8EncodeChar_ascii hlt, List.mem_singleton] at hb
      have hsame : a.val.toNat = c.val.toNat := by rw [← toNat_ofNat_ascii ha, hb, toNat_ofNat_ascii hlt]
      obtain rfl : a = c := Char.ext (UInt32.toNat_inj.1 hsame)
      exact hc
    · have hle := le_of_mem_utf8EncodeChar hge hb
      rw [toNat_ofNat_ascii ha] at hle
      exact absurd ha (Nat.not_lt_of_le hle)
  · intro h
    refine ⟨a, h, ?_⟩
    rw [utf8EncodeChar_ascii ha]
    exact List.mem_singleton_self _

/-! ## Where the encoding of a text ends -/

/-- The first `n` bytes are the encoding of a text, and no longer part from the start is one. -/
structure ValidUpTo (bytes : List UInt8) (n : Nat) : Prop where
  valid : ∃ text, encode text <+: bytes ∧ (encode text).length = n
  longest : ∀ text, encode text <+: bytes → (encode text).length ≤ n

theorem ValidUpTo.unique {bytes : List UInt8} {m n : Nat} (hm : ValidUpTo bytes m) (hn : ValidUpTo bytes n) :
    m = n := by
  obtain ⟨text, htext, rfl⟩ := hm.valid
  obtain ⟨text', htext', rfl⟩ := hn.valid
  exact Nat.le_antisymm (hn.longest text htext) (hm.longest text' htext')

theorem encode_append (s t : List Char) : encode (s ++ t) = encode s ++ encode t := by
  rw [encode, List.flatMap_append, encode, encode]

theorem length_encode (text : List Char) : (encode text).length = text.foldl (fun n c => n + c.utf8Size) 0 := by
  induction text using List.reverseRecOn with
  | nil => rfl
  | append_singleton text c ih =>
    rw [encode_append, List.length_append, ih, List.foldl_append, List.foldl_cons, List.foldl_nil]
    simp [encode]

/-- The characters before the first part that belongs to none, and the bytes that they take up. -/
theorem exists_front (bytes : List UInt8) :
    ∃ text, (items bytes).takeWhile Option.isSome = text.map some ∧ encode text <+: bytes := by
  obtain ⟨text, htext⟩ := exists_map_some (List.all_takeWhile (l := items bytes))
  refine ⟨text, htext, ?_⟩
  have hitems : items bytes = text.map some ++ (items bytes).dropWhile Option.isSome := by
    rw [← htext, List.takeWhile_append_dropWhile]
  obtain ⟨rest, hbytes, -⟩ := items_eq_append_iff.1 hitems
  exact ⟨rest, hbytes.symm⟩

/-- Bytes that are no encoding are told to be one up to the end of their longest part that is. -/
theorem validUpTo_of_decode {bytes : List UInt8} {n : Nat} (h : decode bytes = .error n) : ValidUpTo bytes n := by
  obtain ⟨text, htext, hfront⟩ := exists_front bytes
  have hn : (encode text).length = n := by
    unfold decode at h
    dsimp only at h
    split at h
    next => cases h
    next =>
      rw [htext, List.filterMap_map, Function.id_comp, List.filterMap_some] at h
      rw [length_encode]
      exact Except.error.inj h
  refine ⟨⟨text, hfront, hn⟩, ?_⟩
  rintro t ⟨rest, rfl⟩
  -- The text `t` is read first, so the front goes on from it.
  have hitems : items (encode t ++ rest) = t.map some ++ items rest := items_eq_append_iff.2 ⟨rest, rfl, rfl⟩
  rw [hitems, List.takeWhile_append_of_pos (by simp)] at htext
  obtain ⟨t', more, rfl, ht', -⟩ := List.map_eq_append_iff.1 htext.symm
  obtain rfl : t' = t := List.map_injective_iff.2 (fun _ _ => Option.some.inj) ht'
  rw [← hn, encode_append, List.length_append]
  exact Nat.le_add_right _ _

/-- Of bytes that are the encoding of no text the longest part that is one is told. -/
theorem exists_decode_eq_error {bytes : List UInt8} (h : ∀ text, bytes ≠ encode text) :
    ∃ n, decode bytes = .error n ∧ ValidUpTo bytes n := by
  cases hdecode : decode bytes with
  | ok text => exact absurd (decode_eq_ok_iff.1 hdecode) (h text)
  | error n => exact ⟨n, rfl, validUpTo_of_decode hdecode⟩

end TagLint.Utf8
