import KernelDispatch.Proofs.Operation.Products
import KernelDispatch.Proofs.Operation.Results
import Mathlib.Data.List.Perm.Subperm

/-
  Each element of a product is written once. The positions that a schedule writes are those of the
  product, in some order (`positions_perm`), and what it writes to a position is the sum that one gets
  from the bias, or from zero, by adding the terms of the row and the column one by one
  (`Accumulates`). No law of arithmetic is used, so both schedules compute the same elements, bit for
  bit, whatever addition and multiplication are (`Product.schedules_agree`).
-/

namespace KernelDispatch

namespace Product

/-- The buffers have the sizes of the two factors and of the bias. -/
structure Sized (p : Product) : Prop where
  left : p.left.size = p.rows * p.inner
  weights : p.weights.size = p.inner * p.columns
  bias : ∀ bias, p.bias = some bias → bias.size = p.columns

/-- The sums of an element as its terms are added one by one: `acc k` is the sum of the first `k`.
    All elements that are read are inside their buffers. -/
structure Accumulates (arith : Arithmetic) (p : Product) (row column : Nat) (acc : Nat → Single) :
    Prop where
  unbiased : p.bias = none → acc 0 = .zero
  biased : ∀ bias, p.bias = some bias → bias[column]? = some (acc 0)
  step : ∀ k < p.inner, ∃ x y, p.left[row * p.inner + k]? = some x ∧
    p.weights[if p.transposed then column * p.inner + k else k * p.columns + column]? = some y ∧
    acc (k + 1) = arith.add (acc k) (arith.mul x y)

variable (arith : Arithmetic) (p : Product)

/-! ## Positions -/

theorem length_rowWrites (row : Nat) : (p.rowWrites arith row).length = p.columns := by
  rw [rowWrites, List.length_map, List.length_range]

theorem length_tileWrites (band column : Nat) :
    (p.tileWrites arith band column).length = ProductSizes.tile * ProductSizes.tile := by
  unfold tileWrites
  rw [tileSums_eq, mapIdx_map_range]
  simp only [mapIdx_map_range]
  rfl

theorem length_flatMap_range {α : Type} {f : Nat → List α} {n : Nat} (h : ∀ i, (f i).length = n)
    (count : Nat) : ((List.range count).flatMap f).length = count * n := by
  simp [List.length_flatMap, h]

/-- A schedule that takes the sizes makes as many writes as the product has elements. -/
theorem length_writes {schedule : Schedule} (htiles : schedule = .byTile → p.tiles = true) :
    (p.writes arith schedule).length = p.count := by
  unfold writes ProductSizes.count
  split
  · rename_i hcolumns
    rw [hcolumns, Nat.mul_zero, List.length_nil]
  · cases schedule with
    | byRow => exact length_flatMap_range (p.length_rowWrites arith) p.rows
    | byTile =>
      have htiles := htiles rfl
      simp only [ProductSizes.tiles, Bool.and_eq_true, beq_iff_eq] at htiles
      obtain ⟨⟨hrows, -⟩, hcolumns⟩ := htiles
      have hband : ∀ band, (p.bandWrites arith band).length =
          p.columns / ProductSizes.tile * (ProductSizes.tile * ProductSizes.tile) := fun band =>
        length_flatMap_range (fun _ => p.length_tileWrites arith band _) _
      calc ((List.range (p.rows / ProductSizes.tile)).flatMap (p.bandWrites arith)).length
          = p.rows / ProductSizes.tile *
              (p.columns / ProductSizes.tile * (ProductSizes.tile * ProductSizes.tile)) :=
            length_flatMap_range hband _
        _ = p.rows / ProductSizes.tile * ProductSizes.tile *
              (p.columns / ProductSizes.tile * ProductSizes.tile) := by
            rw [Nat.mul_mul_mul_comm, Nat.mul_assoc]
        _ = p.rows * p.columns := by
            rw [Nat.div_mul_cancel (Nat.dvd_of_mod_eq_zero hrows),
              Nat.div_mul_cancel (Nat.dvd_of_mod_eq_zero hcolumns)]

/-- The positions that are written are all positions of the product, each of them once. -/
theorem positions_perm {schedule : Schedule} (htiles : schedule = .byTile → p.tiles = true) :
    ((p.writes arith schedule).map Prod.fst).Perm (List.range p.count) := by
  have hsubset : List.range p.count ⊆ (p.writes arith schedule).map Prod.fst := by
    intro j hj
    have hj : j < p.rows * p.columns := List.mem_range.1 hj
    have hcolumns : 0 < p.columns := Nat.pos_of_mul_pos_left (Nat.zero_lt_of_lt hj)
    refine List.mem_map.2 ⟨_, (p.mem_writes_iff arith htiles _).2 ⟨j / p.columns,
      Nat.div_lt_of_lt_mul (Nat.mul_comm _ _ ▸ hj), j % p.columns, Nat.mod_lt j hcolumns, rfl⟩, ?_⟩
    exact Nat.div_add_mod' j p.columns
  refine ((List.subperm_of_subset List.nodup_range hsubset).perm_of_length_le ?_).symm
  rw [List.length_map, List.length_range, p.length_writes arith htiles]

/-! ## Sums -/

variable {p}

/-- The entry is the last of the sums. -/
theorem Accumulates.eq_entry {row column : Nat} {acc : Nat → Single}
    (h : p.Accumulates arith row column acc) : acc p.inner = p.entry arith row column := by
  have hstart : acc 0 = p.start column := by
    unfold start
    cases hbias : p.bias with
    | none => exact h.unbiased hbias
    | some bias =>
      have hfirst := h.biased bias hbias
      simp [Array.getD_eq_getD_getElem?, hfirst]
  -- the first `n` terms give the same sum either way
  have hsums : ∀ n ≤ p.inner, acc n =
      (List.range n).foldl (p.accumulate arith row column) (p.start column) := by
    intro n hn
    induction n with
    | zero => exact hstart
    | succ n ih =>
      obtain ⟨x, y, hx, hy, hsum⟩ := h.step n hn
      rw [List.range_succ, List.foldl_append, ← ih (Nat.le_of_lt hn), hsum]
      show _ = p.accumulate arith row column (acc n) n
      unfold accumulate ProductSizes.leftPosition ProductSizes.weightPosition
      rw [Array.getD_eq_getD_getElem?, hx, Array.getD_eq_getD_getElem?, hy]
      rfl
  exact hsums p.inner (Nat.le_refl _)

/-- The terms of a row are in the left buffer. -/
theorem Sized.leftPosition_lt (hp : p.Sized) {row k : Nat} (hrow : row < p.rows)
    (hk : k < p.inner) : p.leftPosition row k < p.left.size := by
  rw [hp.left]
  exact Index.digits_lt hrow hk

/-- The terms of a column are in the buffer of the weights, stored by columns or by rows. -/
theorem Sized.weightPosition_lt (hp : p.Sized) {column k : Nat} (hcolumn : column < p.columns)
    (hk : k < p.inner) : p.weightPosition p.transposed k column < p.weights.size := by
  rw [hp.weights]
  unfold ProductSizes.weightPosition
  split
  · rw [Nat.mul_comm p.inner p.columns]
    exact Index.digits_lt hcolumn hk
  · exact Index.digits_lt hk hcolumn

/-- The start of a column is read where it is. -/
theorem Sized.getElem?_bias (hp : p.Sized) {column : Nat} (hcolumn : column < p.columns)
    {bias : Array Single} (hbias : p.bias = some bias) :
    bias[column]? = some (p.start column) := by
  have hlt : column < bias.size := hp.bias bias hbias ▸ hcolumn
  rw [start, hbias, Array.getElem?_eq_getElem hlt]
  simp [Array.getD_eq_getD_getElem?, hlt]

/-- Inside the product nothing is read beyond the buffers. -/
theorem Sized.accumulates (hp : p.Sized) {row column : Nat} (hrow : row < p.rows)
    (hcolumn : column < p.columns) : p.Accumulates arith row column fun k =>
      (List.range k).foldl (p.accumulate arith row column) (p.start column) := by
  refine ⟨fun hbias => ?_, fun bias hbias => hp.getElem?_bias hcolumn hbias, fun k hk => ?_⟩
  · show p.start column = _
    rw [start, hbias]
  · have hleft := hp.leftPosition_lt hrow hk
    have hweights := hp.weightPosition_lt hcolumn hk
    refine ⟨_, _, Array.getElem?_eq_getElem hleft, Array.getElem?_eq_getElem hweights, ?_⟩
    rw [List.range_succ, List.foldl_append]
    show p.accumulate arith row column _ k = _
    unfold accumulate
    rw [Array.getD_eq_getD_getElem?, Array.getElem?_eq_getElem hleft,
      Array.getD_eq_getD_getElem?, Array.getElem?_eq_getElem hweights]
    rfl

/-! ## Schedules -/

/-- Whatever the schedule, the result is the array of all entries. -/
theorem computed_eq {schedule : Schedule} (htiles : schedule = .byTile → p.tiles = true) :
    p.computed arith schedule =
      Array.ofFn fun j : Fin p.count => p.entry arith (j / p.columns) (j % p.columns) := by
  refine Array.ext (by simp) fun j hj _ => ?_
  rw [size_computed] at hj
  have hj' : j < p.rows * p.columns := hj
  have hcolumns : 0 < p.columns := Nat.pos_of_mul_pos_left (Nat.zero_lt_of_lt hj')
  have hentry := p.getD_computed arith htiles (Nat.div_lt_of_lt_mul (Nat.mul_comm _ _ ▸ hj'))
    (Nat.mod_lt j hcolumns)
  rw [Nat.div_add_mod', Array.getD_eq_getD_getElem?,
    Array.getElem?_eq_getElem (by rw [size_computed]; exact hj)] at hentry
  rw [Array.getElem_ofFn]
  exact hentry

end Product

/-! ## Runs -/

namespace MatMul

/-- The product that a run on the operands computes. -/
structure Reads (op : MatMul) (b : Bindings) (s : Store) (p : Product) : Prop where
  sizes : op.resolve b = .ok p.toProductSizes
  transposed : p.transposed = op.transposed
  left : b.elements s (.source 0) = .ok p.left
  weights : b.elements s .weights = .ok p.weights
  bias : biasElements b s = .ok p.bias

variable {op : MatMul} {b : Bindings} {s : Store} {p : Product}

/-- A run overwrites the destination with the product that it reads, unless its bands are empty. -/
theorem Reads.run_eq (h : op.Reads b s p) (arith : Arithmetic) (name : String)
    {schedule : Product.Schedule} (htiles : schedule = .byTile → p.tiles = true) {t : Memory}
    (ht : b.requireSingle (.destination 0) = .ok t) :
    op.run arith name schedule b s = if schedule = .byTile ∧ p.wraps = true then .error .emptyBands
      else s.fill t (p.computed arith schedule) := by
  unfold run
  rw [h.sizes, h.left, h.weights, h.bias, ht, ← h.transposed]
  exact (if_neg (ProductSizes.not_untiled_iff.2 fun _ => htiles)).trans rfl

/-- A bias that is read is that of the operand. -/
theorem elements_of_biasElements {bias : Array Single} (h : biasElements b s = .ok (some bias)) :
    b.elements s .bias = .ok bias := by
  unfold biasElements at h
  split at h
  · cases h
  · cases hxs : b.elements s .bias with
    | error e =>
      rw [hxs] at h
      cases h
    | ok xs =>
      rw [hxs] at h
      cases h
      rfl

/-- Planar operands that exist have buffers of the sizes of their product. -/
theorem Reads.sized (h : op.Reads b s p) (hs : s.Has b)
    (hplanar : b.descriptors.allInLayout .planar = true) : p.Sized := by
  have hz := (op.resolve_eq_ok_iff b _).1 h.sizes
  have hsize : ∀ q xs, b.elements s q = .ok xs → ∀ sizes,
      (∀ d, b.descriptors.get? q = some d → d.shape = .ofSizes sizes) →
        xs.size = Index.volume sizes := by
    intro q xs hxs sizes hsizes
    obtain ⟨m, hm, rfl⟩ := (b.elements_eq_ok_iff s q xs).1 hxs
    have hget := Bindings.descriptors_get?_of_get? hm.1
    have hlayout := (Descriptors.allInLayout_iff _ _).1 hplanar q _ hget
    have hbytes := (hs q m hm.1).2.size_eq hm.2 (hsizes _ hget)
    rw [Bytes.size_singles, hbytes, Nat.mul_div_cancel_left _ (by decide), hlayout]
    rfl
  have hshape : ∀ {q sizes}, b.descriptors.HasSizes q sizes →
      ∀ d, b.descriptors.get? q = some d → d.shape = .ofSizes sizes := by
    rintro q sizes ⟨d', hd', -, hshape⟩ d hd
    rw [hd', Option.some.injEq] at hd
    rw [← hd, hshape]
  refine ⟨?_, ?_, fun bias hbias => ?_⟩
  · rw [hsize _ _ h.left _ (hshape hz.left)]
    simp
  · rw [hsize _ _ h.weights _ (hshape hz.weights)]
    unfold weightSizes
    split
    · simp [Nat.mul_comm]
    · simp
  · have hread := h.bias
    rw [hbias] at hread
    rw [hsize _ _ (elements_of_biasElements hread) _ hz.bias]
    simp

end MatMul

/-- Let the sizes of a product be multiples of the tile. Then the tiled schedule computes the same
    elements as the one by rows. Either of them writes each position once, and writes there the sum
    that starts at the bias, or at zero, and takes the terms of its row and its column in order. A
    run on operands that have this product leaves the same elements with either schedule, unless it
    works by tiles and its bands are empty, which they are not if there is a row. -/
theorem Product.schedules_agree (arith : Arithmetic) {p : Product} (hp : p.Sized)
    (htiles : p.tiles = true) :
    p.computed arith .byTile = p.computed arith .byRow ∧
    (∀ schedule, ((p.writes arith schedule).map Prod.fst).Perm (List.range p.count) ∧
      ∀ row < p.rows, ∀ column < p.columns, ∃ acc, p.Accumulates arith row column acc ∧
        (row * p.columns + column, acc p.inner) ∈ p.writes arith schedule ∧
        (p.computed arith schedule)[row * p.columns + column]? = some (acc p.inner)) ∧
    ∀ (op : MatMul) (b : Bindings) (s : Store) (t : Memory), op.Reads b s p →
      b.requireSingle (.destination 0) = .ok t → ∀ name schedule,
        (op.run arith name schedule b s =
          if schedule = .byTile ∧ p.wraps = true then .error .emptyBands
          else s.fill t (p.computed arith .byRow)) ∧
        (0 < p.rows → s.Fits t →
          op.run arith name schedule b s = s.fill t (p.computed arith .byRow)) := by
  have hsame : ∀ schedule, p.computed arith schedule = p.computed arith .byRow := by
    intro schedule
    rw [computed_eq arith fun _ => htiles, computed_eq arith fun _ => htiles]
  refine ⟨hsame .byTile, fun schedule => ⟨p.positions_perm arith fun _ => htiles, ?_⟩, ?_⟩
  · intro row hrow column hcolumn
    have hacc := hp.accumulates arith hrow hcolumn
    have hlt : row * p.columns + column < (p.computed arith schedule).size := by
      rw [size_computed]
      exact Index.digits_lt hrow hcolumn
    refine ⟨_, hacc, ?_, ?_⟩
    · rw [hacc.eq_entry]
      exact (p.mem_writes_iff arith (fun _ => htiles) _).2 ⟨row, hrow, column, hcolumn, rfl⟩
    · rw [hacc.eq_entry, ← p.getD_computed arith (fun _ => htiles) hrow hcolumn,
        Array.getD_eq_getD_getElem?, Array.getElem?_eq_getElem hlt]
      rfl
  · intro op b s t hreads ht name schedule
    have hrun : op.run arith name schedule b s =
        if schedule = .byTile ∧ p.wraps = true then .error .emptyBands
        else s.fill t (p.computed arith .byRow) := by
      rw [hreads.run_eq arith name (fun _ => htiles) ht, hsame]
    refine ⟨hrun, fun hrows hfits => hrun.trans (if_neg fun hbands => ?_)⟩
    have hwraps : p.wraps = false :=
      ((op.resolve_eq_ok_iff b _).1 hreads.sizes).wraps_eq_false (fun m hm => by
        rw [(b.requireSingle_eq_ok_iff _ t).1 ht |>.1, Option.some.injEq] at hm
        exact hm ▸ hfits) hrows
    rw [hwraps] at hbands
    cases hbands.2

/-- A product that fills one tile, of weights that are stored by columns, with a bias. -/
def Product.oneTile : Product where
  rows := 4
  inner := 4
  columns := 4
  transposed := true
  left := (Array.range 16).map Nat.toUInt32
  weights := (Array.range 16).map Nat.toUInt32
  bias := some ((Array.range 4).map Nat.toUInt32)

theorem Product.oneTile_schedules_agree : oneTile.Sized ∧ oneTile.tiles = true ∧
    oneTile.computed .single .byTile = oneTile.computed .single .byRow := by
  have hsized : oneTile.Sized := by
    refine ⟨by simp [oneTile], by simp [oneTile], fun bias hbias => ?_⟩
    cases hbias
    simp [oneTile]
  exact ⟨hsized, rfl, (schedules_agree .single hsized rfl).1⟩

end KernelDispatch
