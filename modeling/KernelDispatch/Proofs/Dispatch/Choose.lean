import KernelDispatch.Proofs.Dispatch.Built

/-
  The walk over steady candidates by their responses alone. `choose` asks every candidate anew and
  remembers nothing; it stops at the first one that does not refuse (`First`), whose response is
  the outcome.
-/

namespace KernelDispatch

namespace SteadyKernel

variable {α σ : Type} {attrs : α} {constraints : Constraints}

/-! ## The walk by responses -/

/-- The response of a candidate that is asked for the first time. -/
def response (k : SteadyKernel σ attrs constraints) (ds : Descriptors) : Except Error Bool :=
  if k.accepts ds then k.verdict ds else .ok false

/-- The index of the first candidate that takes the operands, counted from `n`; absent if all of
    them refuse. -/
def choose (ds : Descriptors) :
    List (SteadyKernel σ attrs constraints) → Nat → Except Error (Option Nat)
  | [], _ => .ok none
  | k :: ks, n =>
    match k.response ds with
    | .error e => .error e
    | .ok true => .ok (some n)
    | .ok false => choose ds ks (n + 1)

/-- The first of the candidates that does not refuse, and its place among them. -/
structure First (ds : Descriptors) (ks : List (SteadyKernel σ attrs constraints)) (j : Nat)
    (k : SteadyKernel σ attrs constraints) : Prop where
  at_index : ks[j]? = some k
  decides : k.response ds ≠ .ok false
  before : ∀ j' < j, ∀ k', ks[j']? = some k' → k'.response ds = .ok false

theorem First.choose_eq {ds : Descriptors} {ks : List (SteadyKernel σ attrs constraints)} {j : Nat}
    {k : SteadyKernel σ attrs constraints} (h : First ds ks j k) (n : Nat) :
    choose ds ks n = (k.response ds).map fun _ => some (n + j) := by
  induction ks generalizing j n with
  | nil => cases h.at_index
  | cons k₀ ks ih =>
    obtain ⟨hk, hdecides, hbefore⟩ := h
    cases j with
    | zero =>
      cases hk
      simp only [choose]
      rcases hr : k.response ds with e | _ | _
      · rfl
      · exact absurd hr hdecides
      · rfl
    | succ j =>
      simp only [choose, hbefore 0 (by omega) k₀ rfl]
      have hrest : First ds ks j k :=
        ⟨hk, hdecides, fun j' hj' k' hk' => hbefore (j' + 1) (by omega) k' hk'⟩
      rw [ih hrest (n + 1), show n + 1 + j = n + (j + 1) by omega]

/-- All candidates refuse, or one is the first that does not. -/
theorem choose_eq_none_or_first (ds : Descriptors) (ks : List (SteadyKernel σ attrs constraints))
    (n : Nat) : (choose ds ks n = .ok none ∧ ∀ k ∈ ks, k.response ds = .ok false) ∨
      ∃ j k, First ds ks j k := by
  induction ks generalizing n with
  | nil => exact .inl ⟨rfl, by simp⟩
  | cons k ks ih =>
    by_cases hk : k.response ds = .ok false
    · rcases ih (n + 1) with ⟨hnone, hall⟩ | ⟨j, k', hk', hdecides, hbefore⟩
      · exact .inl ⟨by simp only [choose, hk, hnone], List.forall_mem_cons.2 ⟨hk, hall⟩⟩
      · refine .inr ⟨j + 1, k', hk', hdecides, ?_⟩
        rintro (_ | j') hj' k'' hk''
        · cases hk''
          exact hk
        · exact hbefore j' (by omega) k'' hk''
    · exact .inr ⟨0, k, rfl, hk, fun j' hj' => by omega⟩

theorem choose_eq_ok_some_iff {ds : Descriptors} {ks : List (SteadyKernel σ attrs constraints)}
    {i : Nat} : choose ds ks 0 = .ok (some i) ↔
      ∃ k, First ds ks i k ∧ k.response ds = .ok true := by
  constructor
  · intro h
    rcases choose_eq_none_or_first ds ks 0 with ⟨hnone, -⟩ | ⟨j, k, hfirst⟩
    · rw [hnone] at h
      cases h
    · rw [hfirst.choose_eq, Nat.zero_add] at h
      rcases hr : k.response ds with e | _ | _
      · rw [hr] at h
        cases h
      · exact absurd hr hfirst.decides
      · rw [hr] at h
        cases h
        exact ⟨k, hfirst, hr⟩
  · rintro ⟨k, hfirst, hr⟩
    rw [hfirst.choose_eq, hr, Nat.zero_add]
    rfl

theorem choose_eq_error_iff {ds : Descriptors} {ks : List (SteadyKernel σ attrs constraints)}
    {e : Error} : choose ds ks 0 = .error e ↔
      ∃ i k, First ds ks i k ∧ k.response ds = .error e := by
  constructor
  · intro h
    rcases choose_eq_none_or_first ds ks 0 with ⟨hnone, -⟩ | ⟨j, k, hfirst⟩
    · rw [hnone] at h
      cases h
    · rw [hfirst.choose_eq] at h
      rcases hr : k.response ds with e' | b
      · rw [hr] at h
        cases h
        exact ⟨j, k, hfirst, hr⟩
      · rw [hr] at h
        cases h
  · rintro ⟨i, k, hfirst, hr⟩
    rw [hfirst.choose_eq, hr]
    rfl

theorem choose_eq_ok_none_iff {ds : Descriptors} {ks : List (SteadyKernel σ attrs constraints)} :
    choose ds ks 0 = .ok none ↔ ∀ k ∈ ks, k.response ds = .ok false := by
  rcases choose_eq_none_or_first ds ks 0 with ⟨hnone, hall⟩ | ⟨j, k, hfirst⟩
  · exact ⟨fun _ => hall, fun _ => hnone⟩
  · constructor
    · intro h
      rw [hfirst.choose_eq] at h
      rcases hr : k.response ds with e | b
      · rw [hr] at h
        cases h
      · rw [hr] at h
        cases h
    · intro hall
      exact absurd (hall k (List.mem_of_getElem? hfirst.at_index)) hfirst.decides

/-- A candidate that is chosen has accepted the operands and takes them. -/
theorem of_choose {ds : Descriptors} {ks : List (SteadyKernel σ attrs constraints)} {i : Nat}
    (h : choose ds ks 0 = .ok (some i)) :
    ∃ k, ks[i]? = some k ∧ k.accepts ds = true ∧ k.verdict ds = .ok true := by
  obtain ⟨k, hfirst, htrue⟩ := choose_eq_ok_some_iff.1 h
  refine ⟨k, hfirst.at_index, ?_⟩
  unfold response at htrue
  split at htrue
  · exact ⟨by assumption, htrue⟩
  · cases htrue

end SteadyKernel

end KernelDispatch
