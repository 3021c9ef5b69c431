import KernelDispatch.Layout
import KernelDispatch.Proofs.Memory.Visits
import Mathlib.Algebra.BigOperators.Group.List.Defs

/-
  The walk over a space as a loop without a bound on its steps. The loop visits an index and then
  looks at the axes from the last one on: a coordinate that can grow does, and the next index is
  visited; one that cannot returns to zero and the axis in front of it is looked at. The loop ends
  when no axis is left. It always does, and has then visited what the bounded walk visits
  (`Index.walks_iff`): all indices, once each and in row-major order (`Index.walk_enumerates`).
-/

namespace KernelDispatch

namespace Index

/-! ## Carrying -/

/-- Looks at the axes in front of `axis`, from the last of them on. The result is the next index, or
    none when every coordinate returned to zero; it is absent if a coordinate or a size is
    missing. -/
def carry? (sizes : List Nat) : Nat → Index → Option (Option Index)
  | 0, _ => some none
  | axis + 1, index =>
    match index[axis]?, sizes[axis]? with
    | some i, some n =>
      if i + 1 < n then some (some (index.set axis (i + 1)))
      else carry? sizes axis (index.set axis 0)
    | _, _ => none

/-- The last coordinate grows if it can, and otherwise returns to zero while those in front of it
    advance. -/
theorem next?_append_singleton {sizes : List Nat} {index : Index}
    (hlen : index.length = sizes.length) (n i : Nat) :
    next? (sizes ++ [n]) (index ++ [i]) =
      if i + 1 < n then some (index ++ [i + 1]) else (next? sizes index).map (· ++ [0]) := by
  induction sizes generalizing index with
  | nil =>
    rw [List.length_eq_zero_iff.1 hlen]
    rfl
  | cons m sizes ih => cases index with
    | nil => cases hlen
    | cons j index =>
      have horigin : origin (sizes ++ [n]) = origin sizes ++ [0] := List.map_append
      rw [List.cons_append, List.cons_append, next?, ih (Nat.succ.inj hlen), next?, horigin]
      by_cases hi : i + 1 < n
      · simp only [hi, if_true, List.cons_append]
      · simp only [hi, if_false]
        cases next? sizes index with
        | some index' => rfl
        | none =>
          -- everything behind `j` is at its end, with the last coordinate too
          by_cases hj : j + 1 < m
          · simp only [Option.map_none, hj, if_true, Option.map_some, List.cons_append]
          · simp only [Option.map_none, hj, if_false]

/-- The axes in front of some others advance, and the others are left as they are. -/
theorem carry?_append {sizes : List Nat} {index : Index} (hlen : index.length = sizes.length)
    (sizes' : List Nat) (index' : Index) :
    carry? (sizes ++ sizes') sizes.length (index ++ index') =
      some ((next? sizes index).map (· ++ index')) := by
  induction sizes using List.reverseRecOn generalizing index sizes' index' with
  | nil =>
    rw [List.length_eq_zero_iff.1 hlen]
    rfl
  | append_singleton sizes n ih =>
    obtain ⟨index, i, rfl⟩ : ∃ front last, index = front ++ [last] := by
      rw [List.length_append, List.length_singleton] at hlen
      exact ⟨_, _, (List.dropLast_append_getLast (List.ne_nil_of_length_eq_add_one hlen)).symm⟩
    have hlen' : index.length = sizes.length := by simpa using hlen
    have hcoordinate : (index ++ [i] ++ index')[sizes.length]? = some i := by
      simp [← hlen']
    have hsize : (sizes ++ [n] ++ sizes')[sizes.length]? = some n := by simp
    have hset : ∀ k, (index ++ [i] ++ index').set sizes.length k = index ++ [k] ++ index' := by
      intro k
      simp [← hlen']
    rw [List.length_append, List.length_singleton, carry?, hcoordinate, hsize,
      next?_append_singleton hlen']
    by_cases hi : i + 1 < n
    · simp only [hi, if_true, hset, Option.map_some]
    · simp only [hi, if_false, hset]
      rw [List.append_assoc, List.append_assoc, ih hlen', Option.map_map]
      simp [Function.comp_def]

/-- Every coordinate and size is there, and the loop over the axes arrives at the next index. -/
theorem carry?_eq {sizes : List Nat} {index : Index} (hlen : index.length = sizes.length) :
    carry? sizes sizes.length index = some (next? sizes index) := by
  have h := carry?_append hlen [] []
  simpa using h

/-! ## The loop -/

/-- The loop from an index on ends, and has then visited the given indices. -/
inductive Walk (sizes : List Nat) : Index → List Index → Prop where
  | last {index : Index} (h : carry? sizes sizes.length index = some none) :
      Walk sizes index [index]
  | further {index next : Index} {visits : List Index}
      (h : carry? sizes sizes.length index = some (some next)) (hrest : Walk sizes next visits) :
      Walk sizes index (index :: visits)

/-- The loop over a space ends, and has then visited the given indices. It is not entered when an
    axis has no positions. -/
def Walks (sizes : List Nat) (visits : List Index) : Prop :=
  if sizes.any (· == 0) then visits = [] else Walk sizes (origin sizes) visits

/-- What is visited is determined by where the loop starts. -/
theorem Walk.unique {sizes : List Nat} {index : Index} {visits visits' : List Index}
    (h : Walk sizes index visits) (h' : Walk sizes index visits') : visits = visits' := by
  induction h generalizing visits' with
  | last hend =>
    cases h' with
    | last _ => rfl
    | further hnext _ =>
      rw [hend] at hnext
      cases hnext
  | further hnext hrest ih =>
    cases h' with
    | last hend =>
      rw [hnext] at hend
      cases hend
    | further hnext' hrest' =>
      rw [hnext] at hnext'
      cases hnext'
      rw [ih hrest']

/-- From an index on, the loop ends after as many visits as there are positions left. -/
theorem walk_visitFrom {sizes : List Nat} {steps : Nat} {index : Index}
    (h : InBounds sizes index) (hsteps : position sizes index + steps = volume sizes) :
    Walk sizes index (visitFrom sizes steps index) := by
  induction steps generalizing index with
  | zero =>
    have := position_lt h
    omega
  | succ steps ih =>
    have hcarry := carry?_eq h.length_eq
    have hstep := next?_spec h
    rw [visitFrom]
    cases hnext : next? sizes index with
    | some next =>
      rw [hnext] at hstep hcarry
      obtain ⟨hin, hpos⟩ := hstep
      exact .further hcarry (ih hin (by omega))
    | none =>
      rw [hnext] at hcarry
      exact .last hcarry

/-- The loop ends, and visits what the walk with a bound on its steps visits. -/
theorem walks_iff (sizes : List Nat) (visits : List Index) :
    Walks sizes visits ↔ visits = visited sizes := by
  unfold Walks visited
  split
  · exact Iff.rfl
  · rename_i hzero
    have hvolume : volume sizes ≠ 0 := fun h => hzero ((volume_eq_zero_iff sizes).1 h)
    obtain ⟨horigin, hpos⟩ := inBounds_origin (Nat.pos_of_ne_zero hvolume)
    have hwalk : Walk sizes (origin sizes) (visitFrom sizes (volume sizes) (origin sizes)) :=
      walk_visitFrom horigin (by omega)
    constructor
    · exact fun h => h.unique hwalk
    · rintro rfl
      exact hwalk

/-! ## The order of the visits -/

/-- Positions follow the lexicographic order of indices. -/
theorem lt_of_position_lt {sizes : List Nat} {index index' : Index} (h : InBounds sizes index)
    (h' : InBounds sizes index') (hlt : position sizes index < position sizes index') :
    index < index' := by
  induction sizes generalizing index index' with
  | nil =>
    rw [List.length_eq_zero_iff.1 h.length_eq, List.length_eq_zero_iff.1 h'.length_eq] at hlt
    exact absurd hlt (Nat.lt_irrefl _)
  | cons n sizes ih => cases index with
    | nil => exact h.elim
    | cons i index => cases index' with
      | nil => exact h'.elim
      | cons i' index' =>
        rw [position_cons h.2.length_eq, position_cons h'.2.length_eq] at hlt
        rw [List.cons_lt_cons_iff]
        rcases Nat.lt_trichotomy i i' with hi | rfl | hi
        · exact .inl hi
        · exact .inr ⟨rfl, ih h.2 h'.2 (by omega)⟩
        · -- a larger coordinate outweighs all that follow it
          have hlarger := digits_lt hi (position_lt h'.2)
          omega

theorem pairwise_visited (sizes : List Nat) : (visited sizes).Pairwise (· < ·) := by
  refine List.pairwise_iff_getElem.2 fun i j hi hj hij => ?_
  obtain ⟨hin, hpos⟩ := (getElem?_visited sizes i _).1 (List.getElem?_eq_getElem hi)
  obtain ⟨hin', hpos'⟩ := (getElem?_visited sizes j _).1 (List.getElem?_eq_getElem hj)
  exact lt_of_position_lt hin hin' (by omega)

/-- The loop over a space of any rank ends, and what it visits is determined. It visits every index
    of the space, once each, and no other. The indices come in lexicographic order, each at the
    place that is its offset in planar order, and their number is the product of the sizes. -/
theorem walk_enumerates (sizes : List Nat) :
    (∀ visits, Walks sizes visits ↔ visits = visited sizes) ∧
      (∀ index, index ∈ visited sizes ↔ InBounds sizes index) ∧
      (visited sizes).Nodup ∧ (visited sizes).Pairwise (· < ·) ∧
      (∀ i index, (visited sizes)[i]? = some index → Layout.planar.offset sizes index = i) ∧
      (visited sizes).length = sizes.prod :=
  ⟨walks_iff sizes, mem_visited_iff sizes, nodup_visited sizes, pairwise_visited sizes,
    fun i index h => ((getElem?_visited sizes i index).1 h).2, length_visited sizes⟩

end Index

end KernelDispatch
