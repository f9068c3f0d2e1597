import TagLint.Proofs.Markup.Grammar
import TagLint.Proofs.Text.Numbers
/-!
# Runs of characters with references

A reference is legal when it is the name of a predefined entity or the number of a character in digits of either
base, however many there are (`Reference.Legal`); it is read exactly if a legal one stands there, up to its semicolon
(`Reference.read_eq_ok_iff`). Character data and the values of attributes are runs in which each ampersand begins a
reference. Looking for the first ampersand that does not is looking at all of them (`firstFault_eq_none_iff`), because
no reference has an ampersand inside.
-/

namespace TagLint

namespace Reference

/-! ## Legal references -/

/-- The numbers of characters: all up to the last one, without the surrogates. -/
def IsScalar (n : Nat) : Prop := n ≤ 0x10FFFF ∧ ¬ (0xD800 ≤ n ∧ n ≤ 0xDFFF)

instance (n : Nat) : Decidable (IsScalar n) := inferInstanceAs (Decidable (_ ∧ _))

/-- What may stand between an ampersand and a semicolon. -/
inductive Legal : List Char → Prop
  | entity {name : List Char} : name ∈ ["amp", "lt", "gt", "quot", "apos"].map String.toList → Legal name
  | decimal {digits : List Char} {n : Nat} : Digits.Writes 10 digits n → IsScalar n → Legal ('#' :: digits)
  | hexadecimal {digits : List Char} {n : Nat} :
    Digits.Writes 16 digits n → IsScalar n → Legal ('#' :: 'x' :: digits)

theorem isScalar_iff_isValidChar {w : UInt32} : IsScalar w.toNat ↔ w.isValidChar := by
  unfold IsScalar UInt32.isValidChar Nat.isValidChar
  omega

theorem isCharacter_iff {base : Nat} {digits : List Char} (hb : 0 < base) (hb' : base ≤ 16) :
    isCharacter base digits ↔ ∃ n, Digits.Writes base digits n ∧ IsScalar n := by
  unfold isCharacter
  constructor
  · intro h
    split at h
    next w hw =>
      exact ⟨w.toNat, (Digits.word?_eq_some_iff hb hb').1 hw, isScalar_iff_isValidChar.2 (of_decide_eq_true h)⟩
    next => cases h
  · rintro ⟨n, hn, hscalar⟩
    -- The number of a character fits into a word.
    have hw : (UInt32.ofNat n).toNat = n := UInt32.toNat_ofNat_of_lt' (Nat.lt_of_le_of_lt hscalar.1 (by decide))
    have hword : Digits.word? base digits = some (.ofNat n) := (Digits.word?_eq_some_iff hb hb').2 (by rwa [hw])
    rw [hword]
    exact decide_eq_true (isScalar_iff_isValidChar.1 (by rwa [hw]))

/-- No entity is named like a number. -/
theorem hash_notMem_predefined (digits : List Char) : '#' :: digits ∉ predefined := by
  simp [predefined]

theorem cause?_eq_none_iff {body : List Char} : cause? body = none ↔ Legal body := by
  unfold cause?
  split
  next digits =>
    rw [ite_eq_left_iff, imp_iff_not (by simp), not_not, isCharacter_iff (by decide) (by decide)]
    constructor
    · rintro ⟨n, hn, hscalar⟩
      exact .hexadecimal hn hscalar
    · intro h
      cases h with
      | entity hm => exact absurd hm (hash_notMem_predefined _)
      | hexadecimal hn hscalar => exact ⟨_, hn, hscalar⟩
      | decimal hn =>
        obtain ⟨d, hd⟩ := hn.forall_mem 'x' List.mem_cons_self
        have hvalue : Digits.value? 10 'x' = some d := (Digits.value?_eq_some_iff (by decide)).2 hd
        cases hvalue
  next digits hx =>
    rw [ite_eq_left_iff, imp_iff_not (by simp), not_not, isCharacter_iff (by decide) (by decide)]
    constructor
    · rintro ⟨n, hn, hscalar⟩
      exact .decimal hn hscalar
    · intro h
      cases h with
      | entity hm => exact absurd hm (hash_notMem_predefined _)
      | decimal hn hscalar => exact ⟨_, hn, hscalar⟩
      | hexadecimal => exact absurd rfl (hx _)
  next hhex hhash =>
    rw [ite_eq_left_iff, imp_iff_not (by simp), not_not, List.contains_iff_mem]
    constructor
    · exact .entity
    · intro h
      cases h with
      | entity hm => exact hm
      | decimal => exact absurd rfl (hhash _)
      | hexadecimal => exact absurd rfl (hhex _)

/-! ## Reading a reference -/

theorem isBodyChar_of_isDigitOf {d : Nat} {c : Char} (h : Digits.IsDigitOf d c) : isBodyChar c := by
  have hlower : "0123456789abcdef".toList.all isBodyChar := rfl
  have hupper : "0123456789ABCDEF".toList.all isBodyChar := rfl
  rcases h with h | h
  · exact List.all_eq_true.1 hlower c (List.mem_of_getElem? h)
  · exact List.all_eq_true.1 hupper c (List.mem_of_getElem? h)

theorem isBodyChar_of_writes {base n : Nat} {digits : List Char} (h : Digits.Writes base digits n) :
    ∀ c ∈ digits, isBodyChar c := by
  intro c hc
  obtain ⟨d, -, hd⟩ := h.forall_mem c hc
  exact isBodyChar_of_isDigitOf hd

theorem Legal.ne_nil {body : List Char} (h : Legal body) : body ≠ [] := by
  cases h with
  | entity hm =>
    rintro rfl
    simp at hm
  | _ => simp

theorem Legal.all_isBodyChar {body : List Char} (h : Legal body) : ∀ c ∈ body, isBodyChar c := by
  cases h with
  | entity hm =>
    have hall : predefined.all fun name => name.all isBodyChar := rfl
    exact List.all_eq_true.1 (List.all_eq_true.1 hall _ hm)
  | decimal hn =>
    intro c hc
    rcases List.mem_cons.1 hc with rfl | hc
    · rfl
    · exact isBodyChar_of_writes hn c hc
  | hexadecimal hn =>
    intro c hc
    rcases List.mem_cons.1 hc with rfl | hc
    · rfl
    · rcases List.mem_cons.1 hc with rfl | hc
      · rfl
      · exact isBodyChar_of_writes hn c hc

/-- A reference is read exactly if a legal one stands there, up to its semicolon. -/
theorem read_eq_ok_iff {text body rest : List Char} :
    read text = .ok (body, rest) ↔ Legal body ∧ text = body ++ ';' :: rest := by
  constructor
  · intro h
    refine ⟨?_, read_eq h⟩
    unfold read at h
    split at h
    next c b r hb hr =>
      split at h
      next => cases h
      next hcause =>
        obtain ⟨rfl, -⟩ : c :: b = body ∧ r = rest := by simpa using h
        exact cause?_eq_none_iff.1 hcause
    next => cases h
  · rintro ⟨hl, rfl⟩
    have hsemi : ∀ c ∈ (';' :: rest).head?, isBodyChar c = false := by
      rintro c ⟨⟩
      rfl
    obtain ⟨htake, hdrop⟩ := (span_iff isBodyChar _ body (';' :: rest)).2 ⟨rfl, hl.all_isBodyChar, hsemi⟩
    obtain ⟨c, more, rfl⟩ := List.exists_cons_of_ne_nil hl.ne_nil
    unfold read
    rw [htake, hdrop]
    simp only [cause?_eq_none_iff.2 hl]

theorem read_append {text body rest : List Char} (h : read text = .ok (body, rest)) (more : List Char) :
    read (text ++ more) = .ok (body, rest ++ more) := by
  rw [read_eq_ok_iff] at h ⊢
  obtain ⟨hl, rfl⟩ := h
  exact ⟨hl, by simp⟩

/-- Whether a reference stands at the front of a text can be told before any character that no reference has. -/
theorem read_takeWhile {p : Char → Bool} (hbody : ∀ c, isBodyChar c → p c) (hsemi : p ';') (text : List Char) :
    read (text.takeWhile p) = (read text).map fun parts => (parts.1, parts.2.takeWhile p) := by
  obtain ⟨body, left, ⟨hb, hl⟩⟩ : ∃ body left, text.takeWhile isBodyChar = body ∧ text.dropWhile isBodyChar = left :=
    ⟨_, _, rfl, rfl⟩
  obtain ⟨rfl, hall, hhead⟩ := (span_iff isBodyChar text body left).1 ⟨hb, hl⟩
  have hcut : ∀ c ∈ (left.takeWhile p).head?, isBodyChar c = false := by
    intro c hc
    cases left with
    | nil => cases hc
    | cons d left =>
      rw [List.takeWhile_cons] at hc
      split at hc
      next =>
        obtain rfl := Option.some.inj hc
        exact hhead d rfl
      next => cases hc
  obtain ⟨htake, hdrop⟩ := (span_iff isBodyChar _ body (left.takeWhile p)).2 ⟨rfl, hall, hcut⟩
  unfold read
  rw [List.takeWhile_append_of_pos fun c hc => hbody c (hall c hc), hb, hl, htake, hdrop]
  cases body with
  | nil => rfl
  | cons b body =>
    cases left with
    | nil => rfl
    | cons d left =>
      by_cases hd : d = ';'
      · subst hd
        rw [List.takeWhile_cons_of_pos hsemi]
        cases hcause : cause? (b :: body) <;> simp only [hcause] <;> rfl
      · by_cases hp : p d
        · simp [List.takeWhile_cons_of_pos hp, hd]
          rfl
        · simp [List.takeWhile_cons_of_neg hp, hd]
          rfl

theorem read_eq_and {text body rest : List Char} (h : read text = .ok (body, rest)) :
    text = body ++ [';'] ++ rest ∧ '&' ∉ body ++ [';'] := by
  obtain ⟨hl, rfl⟩ := read_eq_ok_iff.1 h
  refine ⟨by simp, ?_⟩
  intro hm
  rcases List.mem_append.1 hm with hm | hm
  · exact absurd (hl.all_isBodyChar '&' hm) Bool.false_ne_true
  · cases List.mem_singleton.1 hm

end Reference

/-! ## Runs -/

theorem referencesRead_cons {c : Char} {text : List Char} (hc : c ≠ '&') :
    ReferencesRead (c :: text) ↔ ReferencesRead text := by
  constructor
  · intro h before after ht
    exact h (c :: before) after (by simp [ht])
  · intro h before after ht
    cases before with
    | nil => exact absurd (List.cons.inj ht).1 hc
    | cons b before => exact h before after (List.cons.inj ht).2

theorem referencesRead_ampersand {text : List Char} :
    ReferencesRead ('&' :: text) ↔ ∃ body rest, Reference.read text = .ok (body, rest) ∧ ReferencesRead rest := by
  constructor
  · intro h
    obtain ⟨body, rest, hr⟩ := h [] text rfl
    refine ⟨body, rest, hr, fun before after ht => ?_⟩
    refine h ('&' :: body ++ [';'] ++ before) after ?_
    rw [(Reference.read_eq_and hr).1, ht]
    simp
  · rintro ⟨body, rest, hr, h⟩ before after ht
    obtain ⟨heq, hamp⟩ := Reference.read_eq_and hr
    -- A later ampersand stands behind the whole reference.
    cases before with
    | nil => exact ⟨body, rest, (List.cons.inj ht).2 ▸ hr⟩
    | cons b before =>
      obtain ⟨between, -, hrest⟩ := exists_eq_append_of_notMem hamp (heq.symm.trans (List.cons.inj ht).2)
      exact h between after hrest

theorem firstFault_eq_none_iff {text : List Char} : Reference.firstFault text = none ↔ ReferencesRead text := by
  fun_induction Reference.firstFault text with
  | case1 => exact ⟨fun _ before after h => absurd h (by simp), fun _ => rfl⟩
  | case2 text body rest hr ih =>
    rw [ih, referencesRead_ampersand]
    refine ⟨fun h => ⟨body, rest, hr, h⟩, ?_⟩
    rintro ⟨body', rest', hr', h⟩
    obtain ⟨rfl, rfl⟩ : body = body' ∧ rest = rest' := by simpa using hr.symm.trans hr'
    exact h
  | case3 text cause hr =>
    refine ⟨fun h => by simp at h, fun h => ?_⟩
    obtain ⟨body, rest, hr', -⟩ := referencesRead_ampersand.1 h
    rw [hr] at hr'
    cases hr'
  | case4 c text hc ih => rw [ih, referencesRead_cons hc]

theorem ReferencesRead.append {s t : List Char} (hs : ReferencesRead s) (ht : ReferencesRead t) :
    ReferencesRead (s ++ t) := by
  intro before after h
  rcases List.append_eq_append_iff.1 h with ⟨between, -, hbetween⟩ | ⟨between, hbetween, hafter⟩
  · exact ht between after hbetween
  · cases between with
    | nil => exact ht [] after hafter.symm
    | cons c between =>
      obtain ⟨rfl, rfl⟩ := List.cons.inj hafter
      obtain ⟨body, rest, hr⟩ := hs before between hbetween
      exact ⟨body, rest ++ t, Reference.read_append hr t⟩

theorem ReferencesRead.of_notMem {text : List Char} (h : '&' ∉ text) : ReferencesRead text := by
  rintro before after rfl
  exact absurd (List.mem_append_right before List.mem_cons_self) h

/-- No reference goes on over the next ampersand. -/
theorem ReferencesRead.before_ampersand {run text : List Char} (h : ReferencesRead (run ++ '&' :: text)) :
    ReferencesRead run := by
  intro before after hrun
  obtain ⟨body, rest, hr⟩ := h before (after ++ '&' :: text) (by simp [hrun])
  obtain ⟨hsplit, hampersand⟩ := Reference.read_eq_and hr
  obtain ⟨between, hafter, -⟩ := exists_eq_append_of_notMem hampersand hsplit.symm
  refine ⟨body, between, Reference.read_eq_ok_iff.2 ⟨(Reference.read_eq_ok_iff.1 hr).1, ?_⟩⟩
  rw [hafter]
  simp

/-- Looking for a fault goes on behind a text in which all ampersands begin references. -/
theorem ReferencesRead.firstFault_append {run : List Char} (h : ReferencesRead run) (text : List Char) :
    Reference.firstFault (run ++ text) = Reference.firstFault text := by
  fun_induction Reference.firstFault run with
  | case1 => rfl
  | case2 run body rest hr ih =>
    obtain ⟨body', rest', hr', hrest⟩ := referencesRead_ampersand.1 h
    obtain ⟨rfl, rfl⟩ : body = body' ∧ rest = rest' := by simpa using hr.symm.trans hr'
    have hread := Reference.read_append hr text
    rw [List.cons_append, Reference.firstFault, if_pos rfl]
    split
    next body' rest' h' =>
      obtain ⟨-, rfl⟩ : body = body' ∧ rest ++ text = rest' := by simpa using hread.symm.trans h'
      exact ih hrest
    next cause h' =>
      rw [hread] at h'
      cases h'
  | case3 run cause hr =>
    obtain ⟨body, rest, hr', -⟩ := referencesRead_ampersand.1 h
    rw [hr] at hr'
    cases hr'
  | case4 c run hc ih =>
    rw [List.cons_append, Reference.firstFault, if_neg hc]
    exact ih ((referencesRead_cons hc).1 h)

/-- A run ends at the first ampersand behind which no reference stands. -/
theorem readRun_of_read_eq_error {stops : Char → Bool}
    (hstops : ∀ c, Reference.isBodyChar c ∨ c = '&' ∨ c = ';' → stops c = false) {run after : List Char}
    {cause : ReferenceCause} (hrun : ∀ c ∈ run, stops c = false) (href : ReferencesRead run)
    (h : Reference.read after = .error cause) :
    readRun stops (run ++ '&' :: after) = .error ⟨'&' :: after, .badReference cause⟩ := by
  have hread : Reference.read (after.takeWhile fun c => !stops c) = .error cause := by
    rw [Reference.read_takeWhile (fun c hc => by rw [hstops c (.inl hc)]; rfl) (by rw [hstops ';' (by simp)]; rfl), h]
    rfl
  have hampersand : (!stops '&') = true := by
    rw [hstops '&' (.inr (.inl rfl))]
    rfl
  have hfront : ∀ c ∈ run, (!stops c) = true := by
    intro c hc
    rw [hrun c hc]
    rfl
  have hfault : Reference.firstFault ('&' :: after.takeWhile fun c => !stops c) =
      some ('&' :: after.takeWhile (fun c => !stops c), cause) := by
    rw [Reference.firstFault, if_pos rfl]
    split
    next body rest h' =>
      rw [hread] at h'
      cases h'
    next cause' h' =>
      obtain rfl : cause = cause' := by simpa using hread.symm.trans h'
      rfl
  simp only [readRun]
  rw [List.takeWhile_append_of_pos hfront, List.dropWhile_append_of_pos hfront,
    List.takeWhile_cons_of_pos (p := fun c => !stops c) hampersand,
    List.dropWhile_cons_of_pos (p := fun c => !stops c) hampersand, href.firstFault_append, hfault]
  simp

/-- A run with references, and what stops it. -/
theorem readRun_eq_ok_iff {stops : Char → Bool} {text run rest : List Char} :
    readRun stops text = .ok (run, rest) ↔
      text = run ++ rest ∧ (∀ c ∈ run, stops c = false) ∧ (∀ c ∈ rest.head?, stops c) ∧ ReferencesRead run := by
  have hspan := span_iff (fun c => !stops c) text run rest
  simp only [Bool.not_eq_true', Bool.not_eq_false'] at hspan
  rw [← firstFault_eq_none_iff, ← and_assoc, ← and_assoc, and_assoc (a := text = _), ← hspan]
  simp only [readRun]
  cases hf : Reference.firstFault (text.takeWhile (fun c => !stops c)) with
  | some fault =>
    refine ⟨fun h => by simp at h, ?_⟩
    rintro ⟨⟨rfl, -⟩, h⟩
    rw [hf] at h
    cases h
  | none =>
    simp only [Except.ok.injEq, Prod.mk.injEq]
    refine ⟨fun h => ⟨h, h.1 ▸ hf⟩, fun h => h.1⟩

end TagLint
