import KernelDispatch.Shape.Index

/-
  The indices of a space and their row-major positions. Positions number the indices of a space
  from zero up to its volume, one to one (`position_lt`, `position_injective`,
  `exists_position_eq`), and the walk over a space visits all of its indices
  (`mem_visited_iff`).
-/

namespace KernelDispatch

namespace Index

@[simp] theorem volume_nil : volume [] = 1 := rfl

@[simp] theorem volume_cons (n : Nat) (sizes : List Nat) :
    volume (n :: sizes) = n * volume sizes := rfl

theorem InBounds.length_eq {sizes : List Nat} {index : Index} (h : InBounds sizes index) :
    index.length = sizes.length := by
  induction sizes generalizing index with
  | nil => cases index with
    | nil => rfl
    | cons i index => exact h.elim
  | cons n sizes ih => cases index with
    | nil => exact h.elim
    | cons i index => rw [List.length_cons, List.length_cons, ih h.2]

theorem inBounds_append {sizes sizes' : List Nat} {index index' : Index}
    (hlen : index.length = sizes.length) :
    InBounds (sizes ++ sizes') (index ++ index') ↔
      InBounds sizes index ∧ InBounds sizes' index' := by
  induction sizes generalizing index with
  | nil =>
    rw [List.length_eq_zero_iff.1 hlen]
    simp [InBounds]
  | cons n sizes ih => cases index with
    | nil => cases hlen
    | cons i index =>
      have hrest := ih (Nat.succ.inj hlen)
      simp only [List.cons_append, InBounds, hrest, and_assoc]

/-! ## Positions -/

theorem positionFrom_eq {sizes : List Nat} {index : Index}
    (hlen : index.length = sizes.length) (acc : Nat) :
    positionFrom acc sizes index = acc * volume sizes + position sizes index := by
  induction sizes generalizing index acc with
  | nil =>
    rw [List.length_eq_zero_iff.1 hlen]
    simp [position, positionFrom]
  | cons n sizes ih => cases index with
    | nil => cases hlen
    | cons i index =>
      have hlen' : index.length = sizes.length := Nat.succ.inj hlen
      have hstep : position (n :: sizes) (i :: index) =
          i * volume sizes + position sizes index := by
        show positionFrom (0 * n + i) sizes index = _
        rw [ih hlen', Nat.zero_mul, Nat.zero_add]
      rw [hstep, positionFrom, ih hlen', volume_cons, Nat.add_mul, Nat.mul_assoc, Nat.add_assoc]

theorem position_cons {n i : Nat} {sizes : List Nat} {index : Index}
    (hlen : index.length = sizes.length) :
    position (n :: sizes) (i :: index) = i * volume sizes + position sizes index := by
  show positionFrom (0 * n + i) sizes index = _
  rw [positionFrom_eq hlen, Nat.zero_mul, Nat.zero_add]

/-- A last axis adds a last digit. -/
theorem positionFrom_append_singleton {sizes : List Nat} {index : Index}
    (hlen : index.length = sizes.length) (acc n i : Nat) :
    positionFrom acc (sizes ++ [n]) (index ++ [i]) = positionFrom acc sizes index * n + i := by
  induction sizes generalizing index acc with
  | nil =>
    rw [List.length_eq_zero_iff.1 hlen]
    rfl
  | cons m sizes ih => cases index with
    | nil => cases hlen
    | cons j index => exact ih (Nat.succ.inj hlen) (acc * m + j)

/-! ### Digits -/

/-- The numbers of two digits are those below the product. -/
theorem digits_lt {n v i r : Nat} (hi : i < n) (hr : r < v) : i * v + r < n * v :=
  calc i * v + r < i * v + v := by omega
    _ = (i + 1) * v := (Nat.succ_mul _ _).symm
    _ ≤ n * v := Nat.mul_le_mul_right _ hi

theorem digits_div {v r : Nat} (hr : r < v) (i : Nat) : (i * v + r) / v = i := by
  rw [Nat.mul_comm, Nat.mul_add_div (by omega), Nat.div_eq_of_lt hr, Nat.add_zero]

theorem digits_mod {v r : Nat} (hr : r < v) (i : Nat) : (i * v + r) % v = r := by
  rw [Nat.mul_comm, Nat.mul_add_mod, Nat.mod_eq_of_lt hr]

/-- Quotient and remainder are determined by the sum. -/
theorem digits_injective {v i i' r r' : Nat} (hr : r < v) (hr' : r' < v)
    (h : i * v + r = i' * v + r') : i = i' ∧ r = r' := by
  constructor
  · rw [← digits_div hr i, ← digits_div hr' i', h]
  · rw [← digits_mod hr i, ← digits_mod hr' i', h]

theorem position_lt {sizes : List Nat} {index : Index} (h : InBounds sizes index) :
    position sizes index < volume sizes := by
  induction sizes generalizing index with
  | nil => cases index with
    | nil => exact Nat.one_pos
    | cons i index => exact h.elim
  | cons n sizes ih => cases index with
    | nil => exact h.elim
    | cons i index =>
      obtain ⟨hi, hrest⟩ := h
      rw [position_cons hrest.length_eq, volume_cons]
      exact digits_lt hi (ih hrest)

theorem position_injective {sizes : List Nat} {index index' : Index}
    (h : InBounds sizes index) (h' : InBounds sizes index')
    (heq : position sizes index = position sizes index') : index = index' := by
  induction sizes generalizing index index' with
  | nil =>
    have hnil := List.length_eq_zero_iff.1 h.length_eq
    have hnil' := List.length_eq_zero_iff.1 h'.length_eq
    rw [hnil, hnil']
  | cons n sizes ih => cases index with
    | nil => exact h.elim
    | cons i index => cases index' with
      | nil => exact h'.elim
      | cons i' index' =>
        rw [position_cons h.2.length_eq, position_cons h'.2.length_eq] at heq
        obtain ⟨hi, hrest⟩ := digits_injective (position_lt h.2) (position_lt h'.2) heq
        rw [hi, ih h.2 h'.2 hrest]

theorem exists_position_eq {sizes : List Nat} {j : Nat} (hj : j < volume sizes) :
    ∃ index, InBounds sizes index ∧ position sizes index = j := by
  induction sizes generalizing j with
  | nil =>
    rw [volume_nil] at hj
    exact ⟨[], trivial, by rw [Nat.lt_one_iff.1 hj]; rfl⟩
  | cons n sizes ih =>
    rw [volume_cons] at hj
    have hv : 0 < volume sizes := by
      rcases Nat.eq_zero_or_pos (volume sizes) with h | h
      · rw [h, Nat.mul_zero] at hj
        omega
      · exact h
    obtain ⟨index, hin, hpos⟩ := ih (Nat.mod_lt j hv)
    refine ⟨j / volume sizes :: index, ⟨Nat.div_lt_of_lt_mul (by rwa [Nat.mul_comm]), hin⟩, ?_⟩
    rw [position_cons hin.length_eq, hpos, Nat.mul_comm]
    exact Nat.div_add_mod j (volume sizes)

/-! ## The walk over a space -/

theorem inBounds_origin {sizes : List Nat} (h : 0 < volume sizes) :
    InBounds sizes (origin sizes) ∧ position sizes (origin sizes) = 0 := by
  induction sizes with
  | nil => exact ⟨trivial, rfl⟩
  | cons n sizes ih =>
    rw [volume_cons] at h
    obtain ⟨hin, hpos⟩ := ih (Nat.pos_of_mul_pos_left h)
    have hn : 0 < n := Nat.pos_of_mul_pos_right h
    refine ⟨⟨hn, hin⟩, ?_⟩
    show position (n :: sizes) (0 :: origin sizes) = 0
    rw [position_cons hin.length_eq, hpos, Nat.zero_mul]

/-- The next index has the next position, and only the last position has none. -/
theorem next?_spec {sizes : List Nat} {index : Index} (h : InBounds sizes index) :
    match next? sizes index with
    | some index' => InBounds sizes index' ∧ position sizes index' = position sizes index + 1
    | none => position sizes index + 1 = volume sizes := by
  induction sizes generalizing index with
  | nil =>
    rw [List.length_eq_zero_iff.1 h.length_eq]
    rfl
  | cons n sizes ih => cases index with
    | nil => exact h.elim
    | cons i index =>
      obtain ⟨hi, hrest⟩ := h
      have hstep := ih hrest
      simp only [next?]
      cases hnext : next? sizes index with
      | some index' =>
        rw [hnext] at hstep
        obtain ⟨hin, hpos⟩ := hstep
        refine ⟨⟨hi, hin⟩, ?_⟩
        rw [position_cons hin.length_eq, position_cons hrest.length_eq, hpos, Nat.add_assoc]
      | none =>
        rw [hnext] at hstep
        by_cases hlt : i + 1 < n
        · simp only [hlt, if_true]
          have hvolume : 0 < volume sizes := by omega
          obtain ⟨hin, hpos⟩ := inBounds_origin hvolume
          refine ⟨⟨hlt, hin⟩, ?_⟩
          rw [position_cons hin.length_eq, position_cons hrest.length_eq, hpos, Nat.succ_mul]
          omega
        · simp only [hlt, if_false]
          have hlast : i + 1 = n := by omega
          rw [position_cons hrest.length_eq, volume_cons, ← hlast, Nat.succ_mul]
          omega

/-- From an index on, the walk visits the positions that follow. -/
theorem mem_visitFrom_iff {sizes : List Nat} {start : Index} (h : InBounds sizes start)
    (steps : Nat) (index : Index) : index ∈ visitFrom sizes steps start ↔
      InBounds sizes index ∧ position sizes start ≤ position sizes index ∧
        position sizes index < position sizes start + steps := by
  induction steps generalizing start with
  | zero =>
    simp only [visitFrom, List.not_mem_nil, false_iff]
    omega
  | succ steps ih =>
    simp only [visitFrom, List.mem_cons]
    have hsame : index = start ↔ InBounds sizes index ∧
        position sizes index = position sizes start :=
      ⟨fun he => by rw [he]; exact ⟨h, rfl⟩, fun he => position_injective he.1 h he.2⟩
    have hstep := next?_spec h
    cases hnext : next? sizes start with
    | some start' =>
      rw [hnext] at hstep
      obtain ⟨hin, hpos⟩ := hstep
      rw [hsame, ih hin, hpos]
      constructor
      · rintro (⟨hb, he⟩ | ⟨hb, hle, hlt⟩)
        · exact ⟨hb, by omega, by omega⟩
        · exact ⟨hb, by omega, by omega⟩
      · rintro ⟨hb, hle, hlt⟩
        by_cases he : position sizes index = position sizes start
        · exact .inl ⟨hb, he⟩
        · exact .inr ⟨hb, by omega, by omega⟩
    | none =>
      rw [hnext] at hstep
      simp only [List.not_mem_nil, or_false]
      rw [hsame]
      constructor
      · rintro ⟨hb, he⟩
        exact ⟨hb, by omega, by omega⟩
      · rintro ⟨hb, hle, -⟩
        have hlt := position_lt hb
        exact ⟨hb, by omega⟩

theorem volume_eq_zero_iff (sizes : List Nat) :
    volume sizes = 0 ↔ (sizes.any (· == 0)) = true := by
  induction sizes with
  | nil => simp
  | cons n sizes ih => rw [volume_cons, Nat.mul_eq_zero, ih, List.any_cons]; simp

theorem mem_visited_iff (sizes : List Nat) (index : Index) :
    index ∈ visited sizes ↔ InBounds sizes index := by
  unfold visited
  split
  · rename_i hzero
    have hvolume := (volume_eq_zero_iff sizes).2 hzero
    simp only [List.not_mem_nil, false_iff]
    intro h
    have := position_lt h
    omega
  · rename_i hzero
    have hvolume : volume sizes ≠ 0 := fun h => hzero ((volume_eq_zero_iff sizes).1 h)
    obtain ⟨hin, hpos⟩ := inBounds_origin (Nat.pos_of_ne_zero hvolume)
    rw [mem_visitFrom_iff hin, hpos]
    constructor
    · exact fun h => h.1
    · intro h
      have hlt := position_lt h
      exact ⟨h, by omega, by omega⟩

end Index

end KernelDispatch
