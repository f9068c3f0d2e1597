import Mathlib.Data.List.Forall2
import TagLint.Proofs.Tree.Walk
/-!
# The walk meets each place of a tree once

Equal elements may stand at several places of a tree, so a place is told by its address: the numbers of the children
to go down to. The walk goes through all addresses below the root in their order, and around each element it shows
the ones that its address leads through (`Element.walk_inDocumentOrder`).
-/

namespace TagLint

namespace Element

/-- From an element an address leads through those `passed`, outermost first, to another one. -/
inductive Leads : Element → List Nat → (passed : List Element) → Element → Prop
  | here (e : Element) : Leads e [] [] e
  | down {e child target : Element} {i : Nat} {address : List Nat} {passed : List Element} :
    e.children[i]? = some child → Leads child address passed target → Leads e (i :: address) (e :: passed) target

end Element

/-- The addresses of elements and of all below them in document order, if the first of the elements is child `i`. -/
def addresses (i : Nat) : List Element → List (List Nat)
  | [] => []
  | e :: rest => [i] :: ((addresses 0 e.children).map (i :: ·) ++ addresses (i + 1) rest)
termination_by es => sizeOf es
decreasing_by
  · obtain ⟨name, attributes, children, position⟩ := e
    simp only [List.cons.sizeOf_spec, Element.mk.sizeOf_spec]
    omega
  · simp only [List.cons.sizeOf_spec]
    omega

/-! ## The addresses of a tree -/

theorem mem_addresses_of_getElem? {es : List Element} {e : Element} {j : Nat} (h : es[j]? = some e) (i : Nat) :
    [i + j] ∈ addresses i es ∧ ∀ address ∈ addresses 0 e.children, (i + j) :: address ∈ addresses i es := by
  induction es generalizing i j with
  | nil => simp at h
  | cons d es ih =>
    cases j with
    | zero =>
      obtain rfl : d = e := by simpa using h
      refine ⟨by simp [addresses], fun address hm => ?_⟩
      rw [addresses]
      exact List.mem_cons_of_mem _ (List.mem_append_left _ (List.mem_map_of_mem hm))
    | succ j =>
      obtain ⟨hhere, hbelow⟩ := ih (by simpa using h) (i + 1)
      rw [Nat.add_right_comm, Nat.add_assoc] at hhere hbelow
      rw [addresses]
      exact ⟨List.mem_cons_of_mem _ (List.mem_append_right _ hhere),
        fun address hm => List.mem_cons_of_mem _ (List.mem_append_right _ (hbelow address hm))⟩

/-- Wherever an address leads below an element, it is listed. -/
theorem Element.Leads.mem_addresses {e target : Element} {address : List Nat} {passed : List Element}
    (h : e.Leads address passed target) {es : List Element} {j : Nat} (he : es[j]? = some e) (i : Nat) :
    (i + j) :: address ∈ addresses i es := by
  induction h generalizing es i j with
  | here => exact (mem_addresses_of_getElem? he i).1
  | down hchild _ ih =>
    refine (mem_addresses_of_getElem? he i).2 _ ?_
    simpa using ih hchild 0

theorem exists_cons_of_mem_addresses {i : Nat} {es : List Element} {address : List Nat} (h : address ∈ addresses i es) :
    ∃ j rest, i ≤ j ∧ address = j :: rest := by
  induction es generalizing i with
  | nil => simp [addresses] at h
  | cons e es ih =>
    rw [addresses, List.mem_cons, List.mem_append, List.mem_map] at h
    rcases h with rfl | ⟨rest, -, rfl⟩ | h
    · exact ⟨i, [], Nat.le_refl i, rfl⟩
    · exact ⟨i, rest, Nat.le_refl i, rfl⟩
    · obtain ⟨j, rest, hj, rfl⟩ := ih h
      exact ⟨j, rest, by omega, rfl⟩

/-- Document order is the order of addresses, so none is listed twice. -/
theorem pairwise_addresses (i : Nat) (es : List Element) : (addresses i es).Pairwise (· < ·) := by
  fun_induction addresses i es with
  | case1 => exact .nil
  | case2 i e rest ihbelow ihrest =>
    refine List.pairwise_cons.2 ⟨fun address hm => ?_, List.pairwise_append.2 ⟨?_, ihrest, ?_⟩⟩
    · rcases List.mem_append.1 hm with hm | hm
      · obtain ⟨below, hbelow, rfl⟩ := List.mem_map.1 hm
        obtain ⟨j, more, -, rfl⟩ := exists_cons_of_mem_addresses hbelow
        exact List.cons_lt_cons_iff.2 (.inr ⟨rfl, List.nil_lt_cons ..⟩)
      · obtain ⟨j, more, hj, rfl⟩ := exists_cons_of_mem_addresses hm
        exact List.cons_lt_cons_iff.2 (.inl hj)
    · exact List.pairwise_map.2 (ihbelow.imp fun hlt => List.cons_lt_cons_iff.2 (.inr ⟨rfl, hlt⟩))
    · intro address hm other hother
      obtain ⟨below, -, rfl⟩ := List.mem_map.1 hm
      obtain ⟨j, more, hj, rfl⟩ := exists_cons_of_mem_addresses hother
      exact List.cons_lt_cons_iff.2 (.inl hj)

/-! ## The visits of a walk -/

/-- A visit meets the element that an address leads to, if the address begins with the number of one of the
elements `es` and these, the first of them being child `i`, stand in `around`. -/
def Visit.Meets (v : Visit) (around : List Element) (i : Nat) (es : List Element) (address : List Nat) : Prop :=
  ∃ j e rest passed, address = (i + j) :: rest ∧ es[j]? = some e ∧ e.Leads rest passed v.element ∧
    v.ancestors.reverse = around.reverse ++ passed

theorem forall₂_preorder (around : List Element) (i : Nat) (es : List Element) :
    List.Forall₂ (fun address v => Visit.Meets v around i es address) (addresses i es) (preorder around es) := by
  fun_induction preorder around es generalizing i with
  | case1 => rw [addresses]; exact .nil
  | case2 around e rest ihbelow ihrest =>
    rw [addresses]
    refine .cons ⟨0, e, [], [], rfl, rfl, .here e, by simp⟩ (List.rel_append ?_ ?_)
    · refine List.forall₂_map_left_iff.2 ((ihbelow 0).imp ?_)
      rintro _ v ⟨j, child, more, passed, rfl, hchild, hleads, haround⟩
      exact ⟨0, e, _, _, rfl, rfl, .down (by simpa using hchild) hleads, by simpa using haround⟩
    · refine (ihrest (i + 1)).imp ?_
      rintro _ v ⟨j, child, more, passed, rfl, hchild, hleads, haround⟩
      exact ⟨j + 1, child, more, passed, by rw [Nat.add_right_comm, Nat.add_assoc], by simpa using hchild, hleads, haround⟩

/-- The walk is the recursion, and comes to its end after two steps for each element and one for the root. It meets
each address below the root once and in order, with the elements around it that the address leads through. All the
way its stacks are of one height, and while it goes on they hold the element it stands in. -/
theorem Element.walk_inDocumentOrder (root : Element) :
    root.walk = preorder [root] root.children ∧
      (∃ addresses : List (List Nat), addresses.Pairwise (· < ·) ∧
        (∀ address, address ∈ addresses ↔ address ≠ [] ∧ ∃ passed e, root.Leads address passed e) ∧
        List.Forall₂ (fun address v => root.Leads address v.ancestors.reverse v.element) addresses root.walk) ∧
      (∃ final, Walk.Runs (2 * root.walk.length + 1) (.start root) final ∧ final.step? = none ∧
        final.visits.reverse = root.walk) ∧
      ∀ n w, Walk.Runs n (.start root) w → w.Under root ∧ w.ancestors.length = w.pending.length ∧
        ∀ w', w.step? = some w' → w.ancestors ≠ [] := by
  have hmeets := forall₂_preorder [root] 0 root.children
  rw [← root.walk_eq] at hmeets
  have hleads : List.Forall₂ (fun address v => root.Leads address v.ancestors.reverse v.element)
      (addresses 0 root.children) root.walk := by
    refine hmeets.imp ?_
    rintro _ v ⟨j, child, rest, passed, rfl, hchild, hleads, haround⟩
    rw [haround]
    exact .down (by simpa using hchild) hleads
  refine ⟨root.walk_eq, ⟨_, pairwise_addresses 0 root.children, fun address => ⟨fun hm => ?_, ?_⟩, hleads⟩, ?_, ?_⟩
  · obtain ⟨j, rest, -, rfl⟩ := exists_cons_of_mem_addresses hm
    have hall : ∀ address ∈ addresses 0 root.children, ∃ passed e, root.Leads address passed e :=
      ((List.forall₂_and_left _ _).1 (hleads.imp fun _ v h => ⟨⟨_, v.element, h⟩, h⟩)).1
    exact ⟨List.cons_ne_nil _ _, hall _ hm⟩
  · rintro ⟨hne, passed, e, h⟩
    cases h with
    | here => exact absurd rfl hne
    | down hchild h => simpa using h.mem_addresses hchild 0
  · obtain ⟨n, final, hruns, hend⟩ := (Walk.start root).exists_runs
    have hvisits := ((Walk.under_start root).runs hruns).visits
    rw [Walk.left_eq_nil_of_step? hend, List.append_nil, ← root.walk_eq] at hvisits
    have hsteps := hruns.stepsLeft_eq
    rw [root.stepsLeft_start, Walk.stepsLeft_of_step? hend, Nat.zero_add] at hsteps
    exact ⟨final, hsteps ▸ hruns, hend, hvisits⟩
  · intro n w hruns
    have hu := (Walk.under_start root).runs hruns
    exact ⟨hu, hu.length_eq, fun w' h => hu.ancestors_ne_nil h⟩

end TagLint
