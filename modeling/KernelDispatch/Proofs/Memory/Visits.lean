import KernelDispatch.Proofs.Memory.Positions
import Mathlib.Data.Set.Card

/-
  The walk over a space, in order. The index that is visited at place `i` is the one whose position
  is `i` (`getElem?_visited`), so every index is visited once, and the length of the walk is the
  number of indices, which is the volume (`length_visited`, `ncard_inBounds`).
-/

namespace KernelDispatch

namespace Index

/-- From an index on, the walk visits the positions that follow, in order. -/
theorem getElem?_visitFrom {sizes : List Nat} {start : Index} (h : InBounds sizes start)
    (steps i : Nat) (index : Index) : (visitFrom sizes steps start)[i]? = some index ↔
      i < steps ∧ InBounds sizes index ∧ position sizes index = position sizes start + i := by
  induction steps generalizing start i with
  | zero => simp [visitFrom]
  | succ steps ih =>
    rw [visitFrom]
    cases i with
    | zero =>
      rw [List.getElem?_cons_zero, Option.some.injEq]
      constructor
      · rintro rfl
        exact ⟨Nat.succ_pos _, h, rfl⟩
      · rintro ⟨-, hin, hpos⟩
        exact position_injective h hin hpos.symm
    | succ i =>
      have hstep := next?_spec h
      rw [List.getElem?_cons_succ]
      cases hnext : next? sizes start with
      | some start' =>
        rw [hnext] at hstep
        obtain ⟨hin, hpos⟩ := hstep
        rw [ih hin, hpos, Nat.succ_lt_succ_iff]
        simp only [Nat.add_assoc, Nat.add_comm 1]
      | none =>
        -- the walk ends here, and the position would be that of no index
        rw [hnext] at hstep
        simp only [List.getElem?_nil, reduceCtorEq, false_iff, not_and]
        intro _ hin hpos
        have := position_lt hin
        omega

/-- The walk visits every index at its position. -/
theorem getElem?_visited (sizes : List Nat) (i : Nat) (index : Index) :
    (visited sizes)[i]? = some index ↔ InBounds sizes index ∧ position sizes index = i := by
  unfold visited
  split
  · rename_i hzero
    have hvolume := (volume_eq_zero_iff sizes).2 hzero
    simp only [List.getElem?_nil, reduceCtorEq, false_iff, not_and]
    intro hin
    have := position_lt hin
    omega
  · rename_i hzero
    have hvolume : volume sizes ≠ 0 := fun h => hzero ((volume_eq_zero_iff sizes).1 h)
    obtain ⟨horigin, hpos⟩ := inBounds_origin (Nat.pos_of_ne_zero hvolume)
    rw [getElem?_visitFrom horigin, hpos, Nat.zero_add]
    constructor
    · exact fun h => h.2
    · rintro ⟨hin, rfl⟩
      exact ⟨position_lt hin, hin, rfl⟩

theorem length_visited (sizes : List Nat) : (visited sizes).length = volume sizes := by
  refine eq_of_forall_lt_iff fun i => ?_
  constructor
  · intro hi
    obtain ⟨hin, hpos⟩ := (getElem?_visited sizes i _).1 (List.getElem?_eq_getElem hi)
    exact hpos ▸ position_lt hin
  · intro hi
    obtain ⟨index, hin, hpos⟩ := exists_position_eq hi
    exact (List.getElem?_eq_some_iff.1 ((getElem?_visited sizes i index).2 ⟨hin, hpos⟩)).1

theorem nodup_visited (sizes : List Nat) : (visited sizes).Nodup := by
  refine List.nodup_iff_getElem?_ne_getElem?.2 fun i j hij hj heq => ?_
  have hget := List.getElem?_eq_getElem hj
  obtain ⟨-, hi'⟩ := (getElem?_visited sizes i _).1 (heq.trans hget)
  obtain ⟨-, hj'⟩ := (getElem?_visited sizes j _).1 hget
  omega

/-- A space has as many indices as its volume says. -/
theorem ncard_inBounds (sizes : List Nat) :
    Set.ncard {index | InBounds sizes index} = volume sizes := by
  have hset : {index | InBounds sizes index} = ((visited sizes).toFinset : Set Index) := by
    ext index
    simp [mem_visited_iff]
  rw [hset, Set.ncard_coe_finset, List.toFinset_card_of_nodup (nodup_visited sizes),
    length_visited]

end Index

end KernelDispatch
