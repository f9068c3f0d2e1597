import Mathlib.Data.List.Basic
import TagLint.Proofs.Path.Spelling
/-!
# Paths put together

The route of a path seen from another one is the route to that one and then its own (`Path.route_join`), however the
two are spelled. What is found below a directory is spelled by joining one name after the other (`Path.extend`).
-/

namespace TagLint

namespace Path

/-- A slash between two texts parts their pieces. -/
theorem pieces_slash (s t : List UInt8) : pieces ⟨s ++ slash :: t⟩ = pieces ⟨s⟩ ++ pieces ⟨t⟩ := by
  simp only [pieces, splitOn_eq]
  rw [List.splitOn_append_cons_self]

/-- A slash between two texts parts their steps. -/
theorem steps_slash (s t : List UInt8) : steps ⟨s ++ slash :: t⟩ = steps ⟨s⟩ ++ steps ⟨t⟩ := by
  rw [steps, pieces_slash, List.filterMap_append]
  rfl

theorem steps_nil : steps ⟨[]⟩ = [] := rfl

theorem steps_join {p q : Path} (hq : q.isAbsolute = false) : (p.join q).steps = p.steps ++ q.steps := by
  obtain ⟨s⟩ := p
  rw [join, if_neg (by simp [hq])]
  split
  next h =>
    rcases h with rfl | h
    · exact (List.nil_append _).symm
    · -- Behind a slash at the end of the first path the second one begins.
      obtain ⟨s, rfl⟩ := List.getLast?_eq_some_iff.1 h
      show steps ⟨s ++ [slash] ++ q.bytes⟩ = steps ⟨s ++ [slash]⟩ ++ steps q
      rw [List.append_assoc, List.singleton_append, steps_slash, steps_slash, steps_nil, List.append_nil]
  next => exact steps_slash _ _

theorem isAbsolute_join {p q : Path} (hq : q.isAbsolute = false) : (p.join q).isAbsolute = p.isAbsolute := by
  obtain ⟨s⟩ := p
  rw [join, if_neg (by simp [hq])]
  cases s with
  | nil => exact hq
  | cons b s => split <;> rfl

/-- The route to a path seen from another one goes through that one. -/
theorem route_join {p q : Path} (hq : q.isAbsolute = false) : (p.join q).route = p.route ++ q.route := by
  rw [route_eq, route_eq p, route_eq q, isAbsolute_join hq, steps_join hq, hq, List.append_assoc]
  rfl

/-! ## Below a directory -/

/-- The path to what is found below a path by going through names. -/
def extend (p : Path) (names : List (List UInt8)) : Path := names.foldl (fun directory name => directory.join ⟨name⟩) p

theorem extend_cons (p : Path) (name : List UInt8) (names : List (List UInt8)) :
    p.extend (name :: names) = (p.join ⟨name⟩).extend names := rfl

theorem isAbsolute_of_isStep {name : List UInt8} (h : (Component.name name).IsStep) : isAbsolute ⟨name⟩ = false := by
  refine Bool.eq_false_iff.2 fun ha => h.slash_notMem ?_
  exact List.mem_of_mem_head? (beq_iff_eq.1 ha)

theorem pieces_of_isStep {name : List UInt8} (h : (Component.name name).IsStep) : pieces ⟨name⟩ = [name] := by
  rw [pieces, splitOn_eq]
  exact List.splitOn_eq_singleton h.slash_notMem

theorem steps_of_isStep {name : List UInt8} (h : (Component.name name).IsStep) : steps ⟨name⟩ = [.name name] := by
  have hstep : component? name = some (.name name) := h.component?_bytes
  rw [steps, pieces_of_isStep h, List.filterMap_cons_some hstep]
  rfl

/-- A name that is a step of a path is a relative path with this step alone. -/
theorem route_of_isStep {name : List UInt8} (h : (Component.name name).IsStep) :
    isAbsolute ⟨name⟩ = false ∧ route ⟨name⟩ = [.name name] := by
  refine ⟨isAbsolute_of_isStep h, ?_⟩
  rw [route_eq, isAbsolute_of_isStep h, steps_of_isStep h]
  rfl

/-- Names add their steps to the route. -/
theorem route_extend {names : List (List UInt8)} (h : ∀ name ∈ names, (Component.name name).IsStep) (p : Path) :
    (p.extend names).route = p.route ++ names.map .name := by
  induction names generalizing p with
  | nil => exact (List.append_nil _).symm
  | cons name names ih =>
    obtain ⟨habsolute, hroute⟩ := route_of_isStep (h name List.mem_cons_self)
    rw [extend_cons, ih (fun n hn => h n (List.mem_cons_of_mem name hn)), route_join habsolute, hroute,
      List.append_assoc]
    rfl

/-- A name behind a path leaves what the path begins with. -/
theorem lead_join {name : List UInt8} (h : (Component.name name).IsStep) (p : Path) : (p.join ⟨name⟩).lead = p.lead := by
  have hq := isAbsolute_of_isStep h
  have habsolute := isAbsolute_join (p := p) hq
  obtain ⟨s⟩ := p
  have hpieces (t : List UInt8) : pieces ⟨t⟩ ≠ [] := by
    rw [pieces, splitOn_eq]
    exact List.splitOn_ne_nil _ _
  by_cases hs : s = []
  · subst hs
    have hdot : name ≠ Component.current.bytes := by
      cases h with
      | name _ hcurrent _ _ => exact hcurrent
    have hjoin : join ⟨[]⟩ ⟨name⟩ = ⟨name⟩ := by simp [join, hq]
    rw [hjoin, lead, hq, pieces_of_isStep h, List.head?_cons, if_neg (by decide), if_neg (by simpa using hdot)]
    rfl
  · -- Behind a slash a piece begins, so the first piece stays as it was.
    have hhead : (join ⟨s⟩ ⟨name⟩).pieces.head? = (pieces ⟨s⟩).head? := by
      rw [join, if_neg (by simp [hq])]
      split
      next hslash =>
        obtain ⟨s, rfl⟩ := List.getLast?_eq_some_iff.1 (hslash.resolve_left hs)
        show (pieces ⟨s ++ [slash] ++ name⟩).head? = _
        rw [List.append_assoc, List.singleton_append, pieces_slash, pieces_slash, List.head?_append_of_ne_nil _ (hpieces s),
          List.head?_append_of_ne_nil _ (hpieces s)]
      next => exact (congrArg List.head? (pieces_slash s name)).trans (List.head?_append_of_ne_nil _ (hpieces s))
    rw [lead, lead, habsolute, hhead]

/-- Names add themselves to the components. -/
theorem components_extend {names : List (List UInt8)} (h : ∀ name ∈ names, (Component.name name).IsStep) (p : Path) :
    (p.extend names).components = p.components ++ names.map .name := by
  induction names generalizing p with
  | nil => exact (List.append_nil _).symm
  | cons name names ih =>
    have hname := h name List.mem_cons_self
    have hcomponents (p : Path) : p.components = p.lead ++ p.steps := rfl
    rw [extend_cons, ih (fun n hn => h n (List.mem_cons_of_mem name hn)), hcomponents, lead_join hname,
      steps_join (isAbsolute_of_isStep hname), steps_of_isStep hname, hcomponents p]
    simp

/-- Different names lead to different paths. -/
theorem extend_inj {names names' : List (List UInt8)} {p : Path} (h : ∀ name ∈ names, (Component.name name).IsStep)
    (h' : ∀ name ∈ names', (Component.name name).IsStep) (heq : p.extend names = p.extend names') : names = names' := by
  have hcomponents := congrArg components heq
  rw [components_extend h, components_extend h', List.append_cancel_left_eq] at hcomponents
  exact List.map_injective_iff.2 (fun _ _ => Component.name.inj) hcomponents

end Path

end TagLint
