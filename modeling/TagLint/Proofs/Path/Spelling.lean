import TagLint.Path
import TagLint.Proofs.Text.Split
/-!
# Spellings of a path

A normalized path is the one spelling of its components, single dots apart (`Path.components_normalize`). So two
paths have one normalized path exactly if they have the same components but for single dots
(`Path.normalize_eq_normalize_iff`).
-/

namespace TagLint

/-! ## Components -/

namespace Component

/-- A step of a path: to the parent, or to a name that is spelled as itself. -/
inductive IsStep : Component → Prop
  | parent : IsStep .parent
  | name {bytes : List UInt8} : bytes ≠ [] → bytes ≠ current.bytes → bytes ≠ parent.bytes → Path.slash ∉ bytes →
      IsStep (.name bytes)

theorem IsStep.bytes_ne_nil {c : Component} (h : c.IsStep) : c.bytes ≠ [] := by
  cases h with
  | parent => simp [bytes]
  | name hne => exact hne

theorem IsStep.slash_notMem {c : Component} (h : c.IsStep) : Path.slash ∉ c.bytes := by
  cases h with
  | parent => decide
  | name _ _ _ hs => exact hs

theorem IsStep.component?_bytes {c : Component} (h : c.IsStep) : Path.component? c.bytes = some c := by
  cases h with
  | parent => decide
  | name hne hcurrent hparent =>
    rw [Component.bytes, Path.component?, if_neg (not_or.2 ⟨hne, hcurrent⟩), if_neg hparent]

theorem isStep_name_iff {bytes : List UInt8} : (name bytes).IsStep ↔
    bytes ≠ [] ∧ bytes ≠ current.bytes ∧ bytes ≠ parent.bytes ∧ Path.slash ∉ bytes := by
  constructor
  · intro h
    cases h with
    | name hne hcurrent hparent hslash => exact ⟨hne, hcurrent, hparent, hslash⟩
  · rintro ⟨hne, hcurrent, hparent, hslash⟩
    exact .name hne hcurrent hparent hslash

instance (bytes : List UInt8) : Decidable (name bytes).IsStep := decidable_of_iff' _ isStep_name_iff

theorem isStep_of_component? {piece : List UInt8} {c : Component} (hs : Path.slash ∉ piece)
    (h : Path.component? piece = some c) : c.IsStep := by
  unfold Path.component? at h
  split at h
  next => cases h
  next hne =>
    split at h
    next =>
      obtain rfl := Option.some.inj h
      exact .parent
    next hparent =>
      obtain rfl := Option.some.inj h
      rw [not_or] at hne
      exact .name hne.1 hne.2 hparent hs

end Component

namespace Path

/-- Where a path begins, as the components it has in front of its steps. -/
def origin (absolute : Bool) : List Component := if absolute then [.root] else []

/-- The components of a path behind what it begins with. -/
def steps (p : Path) : List Component := p.pieces.filterMap component?

/-- The components of a path but for single dots. -/
def route (p : Path) : List Component := p.components.filter (· ≠ .current)

theorem isStep_of_mem_steps {p : Path} {c : Component} (h : c ∈ p.steps) : c.IsStep := by
  obtain ⟨piece, hp, hc⟩ := List.mem_filterMap.1 h
  exact Component.isStep_of_component? (notMem_of_mem_splitOn hp) hc

theorem route_eq (p : Path) : p.route = origin p.isAbsolute ++ p.steps := by
  have hsteps : p.steps.filter (· ≠ .current) = p.steps :=
    List.filter_eq_self.2 fun c hc => by cases isStep_of_mem_steps hc <;> simp
  rw [route, components, List.filter_append]
  show _ ++ p.steps.filter _ = _
  rw [hsteps, lead, origin]
  split
  · rfl
  · split <;> rfl

/-! ## The spelling of components -/

theorem bytes_ofComponents (absolute : Bool) {steps : List Component} (h : ∀ c ∈ steps, c.IsStep) :
    (ofComponents (origin absolute ++ steps)).bytes =
      (if absolute then [slash] else []) ++ [slash].intercalate (steps.map Component.bytes) := by
  cases steps with
  | nil => cases absolute <;> rfl
  | cons c steps =>
    cases absolute with
    | true => rfl
    | false =>
      cases h c List.mem_cons_self with
      | parent => rfl
      | name => rfl

/-- The spelling of steps falls into their own pieces, or into the empty one if there are none. -/
theorem splitOn_intercalate_steps {steps : List Component} (h : ∀ c ∈ steps, c.IsStep) :
    splitOn slash ([slash].intercalate (steps.map Component.bytes)) =
      if steps = [] then [[]] else steps.map Component.bytes := by
  rw [splitOn_eq]
  split
  next hs => rw [hs]; rfl
  next hs =>
    refine List.splitOn_intercalate slash (fun piece hp => ?_) (by simpa using hs)
    obtain ⟨c, hc, rfl⟩ := List.mem_map.1 hp
    exact (h c hc).slash_notMem

theorem filterMap_component?_bytes {steps : List Component} (h : ∀ c ∈ steps, c.IsStep) :
    (steps.map Component.bytes).filterMap component? = steps := by
  induction steps with
  | nil => rfl
  | cons c steps ih =>
    rw [List.map_cons, List.filterMap_cons_some (h c List.mem_cons_self).component?_bytes,
      ih fun d hd => h d (List.mem_cons_of_mem c hd)]

theorem components_ofComponents (absolute : Bool) {steps : List Component} (h : ∀ c ∈ steps, c.IsStep) :
    (ofComponents (origin absolute ++ steps)).components = origin absolute ++ steps := by
  have hsplit := splitOn_intercalate_steps h
  have hsteps : (splitOn slash ([slash].intercalate (steps.map Component.bytes))).filterMap component? = steps := by
    rw [hsplit]
    split
    next hs => rw [hs]; rfl
    next => exact filterMap_component?_bytes h
  have hbytes := bytes_ofComponents absolute h
  generalize ofComponents (origin absolute ++ steps) = p at hbytes
  cases absolute with
  | true =>
    have hpieces : p.pieces = [] :: splitOn slash ([slash].intercalate (steps.map Component.bytes)) := by
      rw [pieces, hbytes, splitOn_eq, splitOn_eq]
      exact List.splitOn_append_cons_self_of_not_mem List.not_mem_nil _
    have habsolute : p.isAbsolute = true := by
      rw [isAbsolute, hbytes]
      rfl
    rw [components, lead, if_pos habsolute, hpieces]
    exact congrArg _ hsteps
  | false =>
    have hpieces : p.pieces = splitOn slash ([slash].intercalate (steps.map Component.bytes)) := by
      rw [pieces, hbytes]
      rfl
    have hlead : p.lead = [] := by
      cases steps with
      | nil =>
        obtain ⟨bytes⟩ := p
        obtain rfl : bytes = [] := hbytes
        rfl
      | cons c steps =>
        -- The first piece is a step, so it is neither empty, as before a slash, nor a single dot.
        have hc := h c List.mem_cons_self
        rw [hsplit, if_neg (by simp), List.map_cons] at hpieces
        have habsolute : p.isAbsolute = false := by
          refine Bool.eq_false_iff.2 fun ha => hc.bytes_ne_nil ?_
          obtain ⟨text, ht⟩ := List.head?_eq_some_iff.1 (beq_iff_eq.1 ha)
          rw [pieces, ht, splitOn_eq, List.splitOn_cons_eq_if_modifyHead, if_pos (by simp)] at hpieces
          exact (List.cons.inj hpieces).1.symm
        have hdot : c.bytes ≠ Component.current.bytes := by
          intro he
          have hnone := hc.component?_bytes
          rw [he] at hnone
          cases hnone
        simp [lead, habsolute, hpieces, hdot]
    rw [components, hlead, hpieces]
    exact hsteps

theorem components_normalize (p : Path) : p.normalize.components = p.route := by
  rw [normalize, ← route, route_eq, components_ofComponents _ fun c hc => isStep_of_mem_steps hc]

theorem route_normalize (p : Path) : p.normalize.route = p.route := by
  rw [route, components_normalize, route, List.filter_filter]
  simp

/-- Normalizing keeps what it gives. -/
theorem normalize_normalize (p : Path) : p.normalize.normalize = p.normalize := by
  rw [normalize, ← route, route_normalize, normalize, ← route]

theorem normalize_eq_normalize_iff {p q : Path} : p.normalize = q.normalize ↔ p.route = q.route := by
  constructor
  · intro h
    rw [← components_normalize, h, components_normalize]
  · intro h
    rw [normalize, ← route, h, route, ← normalize]

end Path

end TagLint
