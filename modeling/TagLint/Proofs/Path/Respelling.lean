import Mathlib.Logic.Relation
import TagLint.Proofs.Path.Joining
/-!
# Respelling a path

A path is spelled anew by putting in or leaving out pieces that say nothing of the way: single dots, and the empty
pieces of doubled slashes and of a slash at the end. Such steps lead from one path to another exactly if the two have the
same components but for single dots (`Path.respelled_iff`).
-/

namespace TagLint

namespace Path

/-- A piece between slashes that says nothing of the way: a single dot, or nothing, as where a slash is doubled or stands
at the end. -/
def IsIdle (piece : List UInt8) : Prop := piece = [] ∨ piece = Component.current.bytes

instance (piece : List UInt8) : Decidable (IsIdle piece) := inferInstanceAs (Decidable (_ ∨ _))

/-- The path `q` has one piece more than `p`, and the piece is idle. If `p` is absolute, so is `q`, and else neither. -/
def Pads (p q : Path) : Prop :=
  ∃ before piece after, IsIdle piece ∧ p.pieces = before ++ after ∧ q.pieces = before ++ piece :: after ∧
    p.isAbsolute = q.isAbsolute

/-- The path `q` is `p` with idle pieces put in and left out. -/
def Respelled : Path → Path → Prop := Relation.EqvGen Pads

theorem Respelled.refl (p : Path) : p.Respelled p := Relation.EqvGen.refl p

theorem Respelled.symm {p q : Path} (h : p.Respelled q) : q.Respelled p := Relation.EqvGen.symm p q h

theorem Respelled.trans {p q r : Path} (hpq : p.Respelled q) (hqr : q.Respelled r) : p.Respelled r :=
  Relation.EqvGen.trans p q r hpq hqr

/-! ## Idle pieces are no steps -/

theorem component?_of_isIdle {piece : List UInt8} (h : IsIdle piece) : component? piece = none := if_pos h

theorem component?_of_not_isIdle {piece : List UInt8} (h : ¬ IsIdle piece) :
    ∃ c, component? piece = some c ∧ c.bytes = piece := by
  unfold IsIdle at h
  rw [component?, if_neg h]
  split
  next hparent => exact ⟨_, rfl, hparent.symm⟩
  next => exact ⟨_, rfl, rfl⟩

theorem Pads.route_eq {p q : Path} (h : p.Pads q) : p.route = q.route := by
  obtain ⟨before, piece, after, hidle, hp, hq, habsolute⟩ := h
  have hsteps : p.steps = q.steps := by
    rw [steps, steps, hp, hq, List.filterMap_append, List.filterMap_append,
      List.filterMap_cons_none (component?_of_isIdle hidle)]
  rw [Path.route_eq, Path.route_eq q, hsteps, habsolute]

theorem Respelled.route_eq {p q : Path} (h : p.Respelled q) : p.route = q.route := by
  induction h with
  | rel p q h => exact h.route_eq
  | refl p => rfl
  | symm p q _ ih => exact ih.symm
  | trans p q r _ _ hpq hqr => exact hpq.trans hqr

/-- The pieces that are left without the idle ones spell the steps of a path. -/
theorem filter_pieces (p : Path) : p.pieces.filter (¬ IsIdle ·) = p.steps.map Component.bytes := by
  rw [steps]
  induction p.pieces with
  | nil => rfl
  | cons piece pieces ih =>
    by_cases h : IsIdle piece
    · rw [List.filterMap_cons_none (component?_of_isIdle h), List.filter_cons_of_neg (by simpa using h), ih]
    · obtain ⟨c, hc, hbytes⟩ := component?_of_not_isIdle h
      rw [List.filterMap_cons_some hc, List.filter_cons_of_pos (by simpa using h), ih, List.map_cons, hbytes]

/-! ## Paths by their pieces -/

/-- The path of pieces. -/
def ofPieces (pieces : List (List UInt8)) : Path := ⟨[slash].intercalate pieces⟩

theorem pieces_ofPieces {pieces : List (List UInt8)} (hne : pieces ≠ []) (h : ∀ piece ∈ pieces, slash ∉ piece) :
    (ofPieces pieces).pieces = pieces := by
  rw [ofPieces, Path.pieces, splitOn_eq]
  exact List.splitOn_intercalate slash h hne

theorem slash_notMem_of_mem_pieces {p : Path} : ∀ piece ∈ p.pieces, slash ∉ piece :=
  fun _ h => notMem_of_mem_splitOn h

theorem slash_notMem_of_isIdle {piece : List UInt8} (h : IsIdle piece) : slash ∉ piece := by
  rcases h with rfl | rfl <;> decide

/-- The pieces in front of all others, with a single dot that keeps an absolute path absolute and a relative one
relative, whatever stands behind it. -/
def anchor (absolute : Bool) : List (List UInt8) :=
  if absolute then [[], Component.current.bytes] else [Component.current.bytes]

theorem isIdle_of_mem_anchor {absolute : Bool} {piece : List UInt8} (h : piece ∈ anchor absolute) : IsIdle piece := by
  cases absolute with
  | true =>
    rcases List.mem_pair.1 h with rfl | rfl
    · exact .inl rfl
    · exact .inr rfl
  | false => exact .inr (List.mem_singleton.1 h)

theorem isAbsolute_anchor (absolute : Bool) (pieces : List (List UInt8)) :
    (ofPieces (anchor absolute ++ pieces)).isAbsolute = absolute := by
  cases absolute <;> cases pieces <;> rfl

/-- The pieces of an anchored path are those that it is made of. -/
theorem pieces_anchor (absolute : Bool) {pieces : List (List UInt8)} (h : ∀ piece ∈ pieces, slash ∉ piece) :
    (ofPieces (anchor absolute ++ pieces)).pieces = anchor absolute ++ pieces := by
  apply pieces_ofPieces
  · cases absolute <;> exact List.cons_ne_nil _ _
  · intro piece hpiece
    rcases List.mem_append.1 hpiece with hpiece | hpiece
    · exact slash_notMem_of_isIdle (isIdle_of_mem_anchor hpiece)
    · exact h piece hpiece

/-- Behind the anchor idle pieces can be left out one by one. -/
theorem respelled_filter (absolute : Bool) (kept : List (List UInt8)) {pieces : List (List UInt8)}
    (hkept : ∀ piece ∈ kept, slash ∉ piece) (h : ∀ piece ∈ pieces, slash ∉ piece) :
    (ofPieces (anchor absolute ++ (kept ++ pieces))).Respelled
      (ofPieces (anchor absolute ++ (kept ++ pieces.filter (¬ IsIdle ·)))) := by
  induction pieces generalizing kept with
  | nil => exact .refl _
  | cons piece pieces ih =>
    obtain ⟨hpiece, hpieces⟩ := List.forall_mem_cons.1 h
    by_cases hidle : IsIdle piece
    · rw [List.filter_cons_of_neg (by simpa using hidle)]
      refine .trans (.symm (.rel _ _ ?_)) (ih kept hkept hpieces)
      refine ⟨anchor absolute ++ kept, piece, pieces, hidle, ?_, ?_, ?_⟩
      · rw [pieces_anchor absolute (List.forall_mem_append.2 ⟨hkept, hpieces⟩), List.append_assoc]
      · rw [pieces_anchor absolute (List.forall_mem_append.2 ⟨hkept, h⟩), List.append_assoc]
      · rw [isAbsolute_anchor, isAbsolute_anchor]
    · rw [List.filter_cons_of_pos (by simpa using hidle)]
      have hmore := ih (kept ++ [piece]) (List.forall_mem_append.2 ⟨hkept, List.forall_mem_singleton.2 hpiece⟩) hpieces
      rwa [List.append_assoc, List.append_assoc] at hmore

/-- A path has an empty piece in front exactly if it is absolute, and another one behind it then. -/
theorem pieces_cases (p : Path) : ∃ rest, p.pieces = (if p.isAbsolute then [[]] else []) ++ rest := by
  obtain ⟨bytes⟩ := p
  cases bytes with
  | nil => exact ⟨[[]], rfl⟩
  | cons b bytes =>
    by_cases hb : b = slash
    · subst hb
      exact ⟨pieces ⟨bytes⟩, pieces_slash [] bytes⟩
    · refine ⟨pieces ⟨b :: bytes⟩, ?_⟩
      rw [if_neg (by simpa [isAbsolute] using hb)]
      rfl

/-- Every path can be anchored. -/
theorem respelled_anchor (p : Path) :
    p.Respelled (ofPieces (anchor p.isAbsolute ++ p.pieces.filter (¬ IsIdle ·))) := by
  obtain ⟨rest, hrest⟩ := pieces_cases p
  have hslash : ∀ piece ∈ rest, slash ∉ piece := by
    intro piece hpiece
    apply slash_notMem_of_mem_pieces (p := p)
    rw [hrest]
    exact List.mem_append_right _ hpiece
  have hfilter : p.pieces.filter (¬ IsIdle ·) = rest.filter (¬ IsIdle ·) := by
    rw [hrest, List.filter_append]
    split <;> rfl
  have hpad : p.Pads (ofPieces (anchor p.isAbsolute ++ rest)) := by
    refine ⟨_, Component.current.bytes, rest, .inr rfl, hrest, ?_, (isAbsolute_anchor _ _).symm⟩
    rw [pieces_anchor _ hslash, anchor]
    split <;> rfl
  rw [hfilter]
  exact .trans (.rel _ _ hpad) (respelled_filter p.isAbsolute [] nofun hslash)

theorem isAbsolute_iff_mem_route {p : Path} : p.isAbsolute ↔ .root ∈ p.route := by
  have hsteps : Component.root ∉ p.steps := fun h => by cases isStep_of_mem_steps h
  rw [route_eq, List.mem_append, or_iff_left hsteps, origin]
  split <;> simp_all

/-! ## Main theorem -/

/-- Paths are spellings of each other exactly if they have the same components but for single dots. -/
theorem respelled_iff {p q : Path} : p.Respelled q ↔ p.route = q.route := by
  refine ⟨Respelled.route_eq, fun h => ?_⟩
  have habsolute : p.isAbsolute = q.isAbsolute := by
    rw [Bool.eq_iff_iff, isAbsolute_iff_mem_route, isAbsolute_iff_mem_route, h]
  have hsteps : p.steps = q.steps := by
    rw [route_eq, route_eq q, habsolute] at h
    exact List.append_cancel_left h
  have hp := respelled_anchor p
  rw [filter_pieces, habsolute, hsteps, ← filter_pieces] at hp
  exact hp.trans (respelled_anchor q).symm

instance (p q : Path) : Decidable (p.Respelled q) := decidable_of_iff' _ respelled_iff

/-- A slash in front is no slash that is doubled: it makes a path absolute. -/
example : (ofString "./a//b/./").Respelled (ofString "a/b") ∧ ¬ (ofString "/a/b").Respelled (ofString "a/b") := by
  decide

end Path

end TagLint
