import KernelDispatch.Operation.Product
import KernelDispatch.Proofs.Memory.Positions

/-
  Both schedules compute the same product. The sums of a tile are the entries in its rows and columns
  (`tileSums_eq`), so every write of a schedule puts an entry in its place, and each place gets one
  (`mem_writes_iff`): whatever the order of the writes, the result has all entries
  (`getD_computed`).
-/

namespace KernelDispatch

namespace Product

variable (arith : Arithmetic) (p : Product)

/-! ## Entries -/

/-- An entry adds its terms to the start, in order. -/
theorem entry_eq (row column : Nat) : p.entry arith row column =
    ((List.range p.inner).map fun k => arith.mul (p.left.getD (p.leftPosition row k) .zero)
      (p.weights.getD (p.weightPosition p.transposed k column) .zero)).foldl arith.add
      (p.start column) := by
  rw [List.foldl_map]
  rfl

/-! ## Writes -/

/-- Writes that agree with a function leave its values where they write, and nothing anywhere
    else. -/
theorem getD_perform {ws : Writes} {f : Nat → Single} (h : ∀ w ∈ ws, w.2 = f w.1)
    (xs : Array Single) (j : Nat) : (perform xs ws).getD j .zero =
      if (∃ w ∈ ws, w.1 = j) ∧ j < xs.size then f j else xs.getD j .zero := by
  induction ws generalizing xs with
  | nil => simp [perform]
  | cons w ws ih =>
    obtain ⟨hw, hws⟩ := List.forall_mem_cons.1 h
    show (perform (xs.setIfInBounds w.1 w.2) ws).getD j .zero = _
    have hcons : (∃ w' ∈ w :: ws, w'.1 = j) ↔ w.1 = j ∨ ∃ w' ∈ ws, w'.1 = j := by simp
    rw [ih hws, Array.size_setIfInBounds]
    by_cases hj : j < xs.size
    · by_cases hmem : ∃ w ∈ ws, w.1 = j
      · rw [if_pos ⟨hmem, hj⟩, if_pos ⟨hcons.2 (.inr hmem), hj⟩]
      · rw [if_neg fun h => hmem h.1]
        by_cases heq : w.1 = j
        · subst heq
          rw [if_pos ⟨hcons.2 (.inl rfl), hj⟩, ← hw]
          simp [Array.getD_eq_getD_getElem?, hj]
        · rw [if_neg fun h => (hcons.1 h.1).elim heq hmem]
          simp [Array.getD_eq_getD_getElem?, heq]
    · rw [if_neg fun h => hj h.2, if_neg fun h => hj h.2]
      simp [Array.getD_eq_getD_getElem?, hj]

/-! ## Tiles -/

theorem mapIdx_map_range {β γ : Type} (n : Nat) (f : Nat → β) (g : Nat → β → γ) :
    ((List.range n).map f).mapIdx g = (List.range n).map fun i => g i (f i) := by
  refine List.ext_getElem? fun i => ?_
  rw [List.getElem?_mapIdx, List.getElem?_map, List.getElem?_map, Option.map_map]
  by_cases hi : i < n
  · simp [hi]
  · simp [hi]

/-- The sums of a tile advance together, each as if it were the only one. -/
theorem foldl_tileStep (row column n : Nat) (g : Nat → Nat → Single) (ks : List Nat) :
    ks.foldl (p.tileStep arith row column)
        ((List.range n).map fun r => (List.range n).map fun c => g r c) =
      (List.range n).map fun r => (List.range n).map fun c =>
        ks.foldl (p.accumulate arith (row + r) (column + c)) (g r c) := by
  induction ks generalizing g with
  | nil => rfl
  | cons k ks ih =>
    have hstep : p.tileStep arith row column
        ((List.range n).map fun r => (List.range n).map fun c => g r c) k =
          (List.range n).map fun r => (List.range n).map fun c =>
            p.accumulate arith (row + r) (column + c) (g r c) k := by
      unfold tileStep
      rw [mapIdx_map_range]
      exact List.map_congr_left fun r _ => mapIdx_map_range n _ _
    rw [List.foldl_cons, hstep, ih]
    rfl

theorem tileSums_eq (row column : Nat) : p.tileSums arith row column =
    (List.range ProductSizes.tile).map fun r => (List.range ProductSizes.tile).map fun c =>
      p.entry arith (row + r) (column + c) :=
  p.foldl_tileStep arith row column ProductSizes.tile (fun _ c => p.start (column + c)) _

theorem mem_tileWrites_iff (band column : Nat) (w : Nat × Single) :
    w ∈ p.tileWrites arith band column ↔
      ∃ r < ProductSizes.tile, ∃ c < ProductSizes.tile,
        w = ((band * ProductSizes.tile + r) * p.columns + (column + c),
          p.entry arith (band * ProductSizes.tile + r) (column + c)) := by
  have hplace : ∀ r c, band * p.bandLength + (r * p.columns + column + c) =
      (band * ProductSizes.tile + r) * p.columns + (column + c) := by
    intro r c
    rw [ProductSizes.bandLength, Nat.add_mul, Nat.mul_assoc]
    omega
  unfold tileWrites
  rw [tileSums_eq, mapIdx_map_range]
  simp only [mapIdx_map_range, hplace, List.mem_flatten, List.mem_map, List.mem_range]
  constructor
  · rintro ⟨_, ⟨r, hr, rfl⟩, hw⟩
    obtain ⟨c, hc, rfl⟩ := List.mem_map.1 hw
    exact ⟨r, hr, c, List.mem_range.1 hc, rfl⟩
  · rintro ⟨r, hr, c, hc, rfl⟩
    exact ⟨_, ⟨r, hr, rfl⟩, List.mem_map.2 ⟨c, List.mem_range.2 hc, rfl⟩⟩

/-! ## Schedules -/

/-- A schedule that takes the sizes writes all entries to their places, and nothing else. -/
theorem mem_writes_iff {schedule : Schedule} (htiles : schedule = .byTile → p.tiles = true)
    (w : Nat × Single) : w ∈ p.writes arith schedule ↔
      ∃ row < p.rows, ∃ column < p.columns,
        w = (row * p.columns + column, p.entry arith row column) := by
  unfold writes
  by_cases hcolumns : p.columns = 0
  · rw [if_pos hcolumns, hcolumns]
    simp
  · rw [if_neg hcolumns]
    cases schedule with
    | byRow =>
      simp only [List.mem_flatMap, List.mem_range, rowWrites, List.mem_map, eq_comm (b := w)]
    | byTile =>
      have htiles := htiles rfl
      simp only [ProductSizes.tiles, ProductSizes.tile, Bool.and_eq_true, beq_iff_eq] at htiles
      obtain ⟨⟨hrows, -⟩, hcols⟩ := htiles
      simp only [List.mem_flatMap, List.mem_range, bandWrites, mem_tileWrites_iff,
        ProductSizes.tile]
      constructor
      · rintro ⟨band, hband, t, ht, r, hr, c, hc, rfl⟩
        exact ⟨band * 4 + r, by omega, t * 4 + c, by omega, rfl⟩
      · rintro ⟨row, hrow, column, hcolumn, rfl⟩
        refine ⟨row / 4, by omega, column / 4, by omega, row % 4, by omega, column % 4, by omega,
          ?_⟩
        rw [show row / 4 * 4 + row % 4 = row by omega,
          show column / 4 * 4 + column % 4 = column by omega]

/-- Whatever the schedule, the result has all entries of the product. -/
theorem getD_computed {schedule : Schedule} (htiles : schedule = .byTile → p.tiles = true)
    {row column : Nat} (hrow : row < p.rows) (hcolumn : column < p.columns) :
    (p.computed arith schedule).getD (row * p.columns + column) .zero =
      p.entry arith row column := by
  have hentries : ∀ w ∈ p.writes arith schedule,
      w.2 = p.entry arith (w.1 / p.columns) (w.1 % p.columns) := by
    intro w hw
    obtain ⟨row, -, column, hcolumn, rfl⟩ := (p.mem_writes_iff arith htiles w).1 hw
    rw [Index.digits_div hcolumn, Index.digits_mod hcolumn]
  have hwritten : ∃ w ∈ p.writes arith schedule, w.1 = row * p.columns + column :=
    ⟨_, (p.mem_writes_iff arith htiles _).2 ⟨row, hrow, column, hcolumn, rfl⟩, rfl⟩
  have hlt : row * p.columns + column < p.count := Index.digits_lt hrow hcolumn
  rw [computed, getD_perform (f := fun j => p.entry arith (j / p.columns) (j % p.columns)) hentries,
    if_pos ⟨hwritten, by rw [Array.size_replicate]; exact hlt⟩, Index.digits_div hcolumn,
    Index.digits_mod hcolumn]

end Product

end KernelDispatch
