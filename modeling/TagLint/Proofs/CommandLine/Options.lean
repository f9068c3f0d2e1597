import Mathlib.Data.List.TakeWhile
import TagLint.CommandLine.Arguments
import TagLint.Proofs.List.Steps
/-!
# Options behind other words

An option that may be repeated can stand behind any words that are read by themselves, its value in the same word or in
the next one. It adds its value to what those words give (`Arguments.parse_concat`).
-/

namespace TagLint.CommandLine

variable {words : List String} {a a' : Arguments} {p : Parameter} {value : String}

/-- An option that takes a value and may be given again. -/
structure Parameter.TakesMany (p : Parameter) : Prop where
  named : ofLongName? p.longName = some p
  unsigned : '=' ∉ p.longName.toList
  takesValue : p.takesValue = true
  repeatable : p.repeatable = true

theorem Parameter.takesMany_rootOnly : rootOnly.TakesMany :=
  ⟨by decide, by decide, by decide, by decide⟩

theorem Parameter.TakesMany.longName_ne_empty (hp : p.TakesMany) : p.longName ≠ "" := by
  intro hempty
  have hnone : ofLongName? "" = none := by decide
  rw [← hempty, hp.named] at hnone
  cases hnone

theorem Parameter.TakesMany.decide_ne (hp : p.TakesMany) : ∀ c ∈ p.longName.toList, decide (c ≠ '=') = true :=
  fun _ hc => decide_eq_true fun he => hp.unsigned (he ▸ hc)

namespace State

variable {s t : State}

/-- Words without two hyphens alone are taken one by one, and then the words behind them. -/
theorem takeAll_append (hwords : "--" ∉ words) (s : State) (more : List String) :
    s.takeAll (words ++ more) = words.foldlM take s >>= (·.takeAll more) := by
  induction words generalizing s with
  | nil => rfl
  | cons word words ih =>
    rw [List.mem_cons, not_or] at hwords
    obtain ⟨hword, hwords⟩ := hwords
    rw [List.cons_append, takeAll, if_neg (Ne.symm hword), List.foldlM_cons, bind_assoc]
    simp only [ih hwords]

theorem collecting_of_settle {values : List String} (h : s.settle p values = .ok t) : t.collecting = s.collecting := by
  unfold settle at h
  cases hvalues : values.isEmpty with
  | true => rw [hvalues] at h; cases h
  | false =>
    cases hagain : !p.repeatable && decide (p ∈ s.settled) with
    | true => rw [hvalues, hagain] at h; cases h
    | false =>
      rw [hvalues, hagain] at h
      obtain ⟨arguments, -, h⟩ := ok_of_bind h
      obtain rfl := Except.ok.inj h
      rfl

/-- When what was collected is settled, nothing is collected. -/
theorem collecting_of_settleCollected (h : s.settleCollected = .ok t) : t.collecting = none := by
  unfold settleCollected at h
  split at h
  next hs =>
    obtain rfl := Except.ok.inj h
    exact hs
  next => exact collecting_of_settle h

theorem settleCollected_of_none (h : s.collecting = none) : s.settleCollected = .ok s := by
  rw [settleCollected, h]

/-- A parameter that may be repeated is settled whatever was settled before. -/
theorem settle_repeatable (hp : p.repeatable = true) (hput : put s.arguments p value = .ok a') :
    s.settle p [value] = .ok { s with arguments := a', settled := p :: s.settled } := by
  unfold settle
  rw [List.isEmpty_cons, hp, List.foldlM_cons, hput]
  rfl

/-- The name of an option ends at the first equals sign. -/
theorem take_hyphens {word : String} {option : List Char} (h : word.toList = '-' :: '-' :: option) (s : State) :
    s.take word =
      match option.dropWhile (· ≠ '=') with
      | _ :: value => s.takeLong (.ofList (option.takeWhile (· ≠ '='))) (some (.ofList value))
      | [] => s.takeLong (.ofList (option.takeWhile (· ≠ '='))) none := by
  unfold take
  rw [h]
  rfl

/-- An option with its value behind an equals sign is settled at once. -/
theorem take_assigned (hp : p.TakesMany) (s : State) (value : String) :
    s.take ("--" ++ p.longName ++ "=" ++ value) = s.settleCollected >>= (·.settle p [value]) := by
  have hword : ("--" ++ p.longName ++ "=" ++ value).toList = '-' :: '-' :: (p.longName.toList ++ '=' :: value.toList) := by
    simp
  rw [take_hyphens hword, List.takeWhile_append_of_pos hp.decide_ne, List.dropWhile_append_of_pos hp.decide_ne,
    List.takeWhile_cons_of_neg (by decide), List.dropWhile_cons_of_neg (by decide), List.append_nil]
  dsimp only
  rw [String.ofList_toList, String.ofList_toList, takeLong, hp.named]
  dsimp only
  rw [hp.takesValue]

/-- Behind the name of an option its value is awaited. -/
theorem take_awaiting (hp : p.TakesMany) (s : State) : s.take ("--" ++ p.longName) =
    s.settleCollected >>= fun t => .ok { t with collecting := some (p, []), awaiting := true } := by
  have hword : ("--" ++ p.longName).toList = '-' :: '-' :: p.longName.toList := by simp
  rw [take_hyphens hword, List.dropWhile_eq_nil_iff.2 hp.decide_ne, List.takeWhile_eq_self_iff.2 hp.decide_ne,
    String.ofList_toList, takeLong, hp.named]
  dsimp only
  rw [hp.takesValue]
  rfl

/-- A word without a hyphen in front is the value that is awaited. -/
theorem take_awaited (h : value.toList.head? ≠ some '-') (hs : s.collecting = some (p, [])) (ha : s.awaiting = true) :
    s.take value = .ok { s with collecting := some (p, [value]), awaiting := false } := by
  have hvalue : s.take value = s.takeValue value := by
    unfold take
    split
    next hlist => exact absurd (by rw [hlist]; rfl) h
    next hlist => exact absurd (by rw [hlist]; rfl) h
    next => rfl
  rw [hvalue, takeValue, ha, hs]

theorem takeAll_cons {word : String} (h : word ≠ "--") (s : State) :
    s.takeAll (word :: words) = s.take word >>= (·.takeAll words) := by
  rw [takeAll, if_neg h]

theorem takeAll_assigned (hp : p.TakesMany) (hs : s.settleCollected = .ok t) (hput : put t.arguments p value = .ok a') :
    s.takeAll ["--" ++ p.longName ++ "=" ++ value] = .ok { t with arguments := a', settled := p :: t.settled } := by
  have hword : "--" ++ p.longName ++ "=" ++ value ≠ "--" := fun he => by simpa using congrArg String.toList he
  have hnone := collecting_of_settleCollected hs
  rw [takeAll_cons hword, take_assigned hp, hs]
  show (t.settle p [value] >>= (·.takeAll [])) = _
  rw [settle_repeatable hp.repeatable hput]
  exact settleCollected_of_none hnone

theorem takeAll_awaited (hp : p.TakesMany) (hs : s.settleCollected = .ok t) (hput : put t.arguments p value = .ok a')
    (hvalue : value.toList.head? ≠ some '-') : s.takeAll ["--" ++ p.longName, value] =
      .ok { t with arguments := a', settled := p :: t.settled, collecting := none, awaiting := false } := by
  have hname : "--" ++ p.longName ≠ "--" := fun he => hp.longName_ne_empty (by simpa using congrArg String.toList he)
  have hword : value ≠ "--" := by
    rintro rfl
    exact hvalue rfl
  rw [takeAll_cons hname, take_awaiting hp, hs]
  show takeAll _ [value] = _
  rw [takeAll_cons hword, take_awaited hvalue rfl rfl]
  exact settle_repeatable hp.repeatable hput

end State

/-- What words give that are read by themselves is what was settled before the words behind them are taken. -/
theorem Arguments.exists_parse_append (h : parse words = .ok a) (hwords : "--" ∉ words) :
    ∃ s t : State, s.settleCollected = .ok t ∧ t.arguments = a ∧
      ∀ more r, s.takeAll more = .ok r → parse (words ++ more) = .ok r.arguments := by
  obtain ⟨t, ht, rfl⟩ : ∃ t, State.start.takeAll words = .ok t ∧ t.arguments = a := by
    unfold parse at h
    cases htaken : State.start.takeAll words with
    | error e => rw [htaken] at h; cases h
    | ok t => rw [htaken] at h; exact ⟨t, rfl, Except.ok.inj h⟩
  rw [← List.append_nil words, State.takeAll_append hwords] at ht
  obtain ⟨s, hs, ht⟩ := ok_of_bind ht
  refine ⟨s, t, ht, rfl, fun more r hmore => ?_⟩
  rw [parse, State.takeAll_append hwords, hs]
  show State.arguments <$> s.takeAll more = _
  rw [hmore]
  rfl

/-- An option that may be repeated, behind words that are read by themselves, adds its value to what they give. -/
theorem Arguments.parse_concat (h : parse words = .ok a) (hwords : "--" ∉ words) (hp : p.TakesMany)
    (hput : State.put a p value = .ok a') : parse (words ++ ["--" ++ p.longName ++ "=" ++ value]) = .ok a' ∧
      (value.toList.head? ≠ some '-' → parse (words ++ ["--" ++ p.longName, value]) = .ok a') := by
  obtain ⟨s, t, ht, rfl, htake⟩ := exists_parse_append h hwords
  constructor
  · exact htake _ _ (State.takeAll_assigned hp ht hput)
  · intro hvalue
    exact htake _ _ (State.takeAll_awaited hp ht hput hvalue)

end TagLint.CommandLine
