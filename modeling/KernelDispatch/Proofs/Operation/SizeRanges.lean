import KernelDispatch.Proofs.Operation.CheckedProducts

/-
  The sizes that kernels form while they run. An operand exists because the product of its own
  extents is in range, but a run multiplies other pairs of extents. On operands that a kernel
  accepts each of these products is bounded by the size of a buffer, but for two: without rows
  nothing bounds the length of a band of tiles, and without images nothing bounds the length of a
  line (`StandardOperation.sizes_in_range_unless_empty`).
-/

namespace KernelDispatch

/-! ## Buffers -/

namespace Store.Has

variable {s : Store} {b : Bindings}

/-- Memories for which there are enough bytes, by entries. -/
theorem of_entries (h : ∀ e ∈ b.entries, e.2.cell < s.cells.size ∧ s.Fits e.2) : s.Has b :=
  fun p m hm => h (p, m) ((OrderedMap.get?_eq_some_iff _).1 hm)

theorem elements_lt (hs : s.Has b) {p : Operand} {xs : Array Single}
    (h : b.elements s p = .ok xs) : xs.size * 4 < sizeLimit := by
  obtain ⟨m, hm, rfl⟩ := (b.elements_eq_ok_iff s p xs).1 h
  have hlt := (hs p m hm.1).2.size_lt
  rw [Bytes.size_singles]
  omega

/-- A planar operand of `f32` elements has no more of them than there are bytes. -/
theorem volume_lt (hs : s.Has b) (hplanar : b.descriptors.allInLayout .planar = true)
    {p : Operand} {sizes : List Nat} (h : b.descriptors.HasSizes p sizes) :
    Index.volume sizes * 4 < sizeLimit := by
  obtain ⟨d, hd, htype, hshape⟩ := h
  obtain ⟨m, hm, rfl⟩ := (Bindings.descriptors_get?_eq_some_iff b p d).1 hd
  have hsize := (hs p m hm).2.size_eq htype hshape
  rw [(Descriptors.allInLayout_iff _ _).1 hplanar p _ hd] at hsize
  have hlt := (hs p m hm).2.size_lt
  rw [hsize, Nat.mul_comm] at hlt
  exact hlt

end Store.Has

/-- Overwrites a memory with elements, unless a check failed before there were any. -/
def Store.fill? (s : Store) (m : Memory) : Option (Array Single) → Except Misfit (Option Store)
  | none => .ok none
  | some xs => (s.fill m xs).map some

theorem Store.fill?_ite {s s' : Store} {m : Memory} {xs : Array Single} {c : Prop} [Decidable c]
    (h : s.fill m xs = .ok s') :
    s.fill? m (if c then none else some xs) =
      (s.fill m xs).map fun s' => if c then none else some s' := by
  by_cases hc : c
  · rw [if_pos hc, h]
    simp only [if_pos hc]
    rfl
  · rw [if_neg hc, fill?, h]
    simp only [if_neg hc]

/-! ## Products of matrices -/

namespace MatMul

variable (arith : Arithmetic) {op : MatMul} {b : Bindings} {s : Store}

/-- `run` with everything checked. What it yields is absent if a check fails. -/
def run? (op : MatMul) (name : String) (schedule : Product.Schedule) (b : Bindings) (s : Store) :
    Except Misfit (Option Store) := do
  let sizes ← op.resolve b
  let left ← b.elements s (.source 0)
  let weights ← b.elements s .weights
  let bias ← biasElements b s
  let target ← b.requireSingle (.destination 0)
  if sizes.columns ≠ 0 ∧ schedule = .byTile ∧ !sizes.tiles then
    throw (.untiled name ProductSizes.tile)
  let product : Product := { sizes with transposed := op.transposed, left, weights, bias }
  s.fill? target (product.computed? arith schedule)

/-- Planar operands that exist have a product in range. -/
theorem Reads.inRange {p : Product} (h : op.Reads b s p) (hs : s.Has b)
    (hplanar : b.descriptors.allInLayout .planar = true) : p.InRange := by
  have hz := (op.resolve_eq_ok_iff b _).1 h.sizes
  refine { h.sized hs hplanar with
    leftBytes := hs.elements_lt h.left
    weightBytes := hs.elements_lt h.weights
    bytes := ?_ }
  have htarget := hs.volume_lt hplanar hz.target
  rw [Index.volume_cons, Index.volume_cons, Index.volume_nil, Nat.mul_one] at htarget
  exact htarget

/-- The length of a band is a size unless there are no rows, no terms and no `f32` bias. -/
theorem Resolves.empty_of_bandLength {z : ProductSizes} (hz : op.Resolves b.descriptors z)
    (hs : s.Has b) (hplanar : b.descriptors.allInLayout .planar = true)
    (h : sizeLimit ≤ z.bandLength) :
    z.rows = 0 ∧ z.inner = 0 ∧ ∀ m, ¬b.BindsSingle .bias m := by
  have hlong : sizeLimit ≤ z.columns * 4 := Nat.mul_comm z.columns 4 ▸ h
  have hempty : ∀ n, n * z.columns * 4 < sizeLimit → n = 0 := by
    intro n hn
    refine Nat.eq_zero_of_not_pos fun hpos => ?_
    have hle : z.columns * 4 ≤ n * z.columns * 4 :=
      Nat.mul_le_mul_right 4 (Nat.le_mul_of_pos_left _ hpos)
    omega
  refine ⟨hempty _ ?_, hempty _ ?_, fun m hm => ?_⟩
  · simpa [Nat.mul_assoc] using hs.volume_lt hplanar hz.target
  · have hweights := hs.volume_lt hplanar hz.weights
    unfold weightSizes at hweights
    split at hweights
    · simpa [Nat.mul_comm z.inner] using hweights
    · simpa using hweights
  · have hget := Bindings.descriptors_get?_of_get? hm.1
    have hbias := hs.volume_lt hplanar ⟨_, hget, hm.2, hz.bias _ hget⟩
    rw [Index.volume_cons, Index.volume_nil, Nat.mul_one] at hbias
    omega

/-- The destination takes as many elements as the product has. -/
theorem Resolves.exists_fill {z : ProductSizes} (hz : op.Resolves b.descriptors z) (hs : s.Has b)
    (hplanar : b.descriptors.allInLayout .planar = true) {t : Memory}
    (ht : b.BindsSingle (.destination 0) t) {xs : Array Single} (hsize : xs.size = z.count) :
    ∃ s', s.fill t xs = .ok s' := by
  refine ⟨_, (s.fill_eq_ok_iff _ t _).2 ⟨ht.2, ?_, rfl⟩⟩
  rw [hz.size_target hplanar ht (hs _ t ht.1).2, hsize]

/-- A run and its checked form come as far as the destination with the same product, or fail on the
    bias alike. -/
theorem run?_cases {z : ProductSizes} (hz : op.resolve b = .ok z) (name : String)
    {schedule : Product.Schedule} (htiles : schedule = .byTile → z.tiles = true) :
    (∃ p t, p.toProductSizes = z ∧ op.Reads b s p ∧ b.requireSingle (.destination 0) = .ok t ∧
      run? arith op name schedule b s = s.fill? t (p.computed? arith schedule)) ∨
    ∃ e m, b.get? .bias = some m ∧ ¬ b.BindsSingle .bias m ∧ e.isReported = true ∧
      run? arith op name schedule b s = .error e ∧ op.run arith name schedule b s = .error e := by
  have hresolves := (op.resolve_eq_ok_iff b z).1 hz
  obtain ⟨x, y, t, hx, hy, ht⟩ := hresolves.binds
  have hleft := (b.elements_eq_ok_iff s _ _).2 ⟨x, hx, rfl⟩
  have hweights := (b.elements_eq_ok_iff s _ _).2 ⟨y, hy, rfl⟩
  have htarget := (b.requireSingle_eq_ok_iff _ t).2 ht
  cases hbias : biasElements b s with
  | error e =>
    right
    have hnone : ¬ ∃ bias, biasElements b s = .ok bias := by
      rw [hbias]
      rintro ⟨_, ⟨⟩⟩
    rw [exists_biasElements_iff] at hnone
    simp only [Classical.not_forall] at hnone
    obtain ⟨m, hm, htype⟩ := hnone
    refine ⟨e, m, hm, fun h => htype h.2, biasElements_reports b s e hbias, ?_, ?_⟩
    · unfold run?
      rw [hz, hleft, hweights, hbias]
      rfl
    · unfold run
      rw [hz, hleft, hweights, hbias]
      rfl
  | ok bias =>
    left
    refine ⟨{ z with
      transposed := op.transposed
      left := (s.contents x).singles
      weights := (s.contents y).singles
      bias }, t, rfl, ⟨hz, rfl, hleft, hweights, hbias⟩, htarget, ?_⟩
    unfold run?
    rw [hz, hleft, hweights, hbias, htarget]
    exact if_neg (ProductSizes.not_untiled_iff.2 fun _ => htiles)

/-- On planar operands that exist a run by rows passes all checks. A run by tiles passes them if the
    length of a band is in range; if it is not, a check fails unless there is a bias, whose elements
    are no `f32` then. The program ends if the length wraps around to zero as well. -/
theorem run?_eq (hs : s.Has b) (hplanar : b.descriptors.allInLayout .planar = true)
    {z : ProductSizes} (hz : op.resolve b = .ok z) (name : String) {schedule : Product.Schedule}
    (htiles : schedule = .byTile → z.tiles = true) :
    run? arith op name schedule b s =
        (if schedule = .byTile ∧ sizeLimit ≤ z.bandLength ∧ b.get? .bias = none then .ok none
        else (op.run arith name schedule b s).map some) ∧
      (op.run arith name schedule b s = .error .emptyBands ↔
        schedule = .byTile ∧ z.wraps = true ∧ b.get? .bias = none) := by
  have hresolves := (op.resolve_eq_ok_iff b z).1 hz
  rcases run?_cases arith (s := s) hz name htiles with
    ⟨p, t, rfl, hreads, ht, hrun?⟩ | ⟨e, m, hm, hbias, hreported, hrun?, hrun⟩
  · have hrun := hreads.run_eq arith name htiles ht
    rw [(hreads.inRange hs hplanar).computed?_eq arith htiles] at hrun?
    obtain ⟨s', hfill⟩ := hresolves.exists_fill hs hplanar
      ((b.requireSingle_eq_ok_iff _ t).1 ht) (p.size_computed arith schedule)
    -- a bias that was read would have too many elements
    have hunbound : sizeLimit ≤ p.bandLength → b.get? .bias = none := by
      intro hlong
      refine Option.eq_none_iff_forall_ne_some.2 fun m hm => ?_
      exact (hresolves.empty_of_bandLength hs hplanar hlong).2.2 m
        ⟨hm, (exists_biasElements_iff b s).1 ⟨_, hreads.bias⟩ m hm⟩
    constructor
    · by_cases hlong : schedule = .byTile ∧ sizeLimit ≤ p.bandLength
      · rw [hrun?, if_pos hlong, if_pos ⟨hlong.1, hlong.2, hunbound hlong.2⟩]
        rfl
      · have hbands : ¬ (schedule = .byTile ∧ p.wraps = true) := fun h =>
          hlong ⟨h.1, p.le_bandLength_of_wraps h.2⟩
        rw [hrun?, if_neg hlong, if_neg fun h => hlong ⟨h.1, h.2.1⟩, hrun, if_neg hbands]
        rfl
    · rw [hrun]
      constructor
      · intro h
        split at h
        · rename_i hbands
          exact ⟨hbands.1, hbands.2, hunbound (p.le_bandLength_of_wraps hbands.2)⟩
        · rw [hfill] at h
          cases h
      · rintro ⟨hs, hwraps, -⟩
        exact if_pos ⟨hs, hwraps⟩
  · have hbound : b.get? .bias ≠ none := by
      rw [hm]
      exact Option.some_ne_none m
    rw [hrun?, hrun, if_neg fun h => hbound h.2.2]
    refine ⟨rfl, iff_of_false (fun h => ?_) fun h => hbound h.2.2⟩
    cases h
    cases hreported

end MatMul

/-! ## Poolings -/

/-- The lines that an output is split into, with the sizes checked that a split needs. -/
def PoolGeometry.split? (g : PoolGeometry) : Option (List (Nat × Nat)) :=
  (times? g.output.width g.channels).bind fun length =>
    (times? g.batch g.output.height).bind fun lines =>
      (times? lines length).bind fun count =>
        if length = 0 then some [] else chunks? count length

namespace Pooling

variable (arith : Arithmetic) {op : Pooling} {b : Bindings} {s : Store} {g : PoolGeometry}

/-- `computed?` with the split into lines checked as well and, if there are lines, the number of
    elements under a window. -/
def output? (op : Pooling) (g : PoolGeometry) (xs : Array Single) : Option (Array Single) :=
  g.split?.bind fun lines =>
    if lines = [] then op.computed? arith g xs
    else (times? op.window.height op.window.width).bind fun _ => op.computed? arith g xs

/-- `run?` with everything checked that concerns the output. -/
def splitRun? (op : Pooling) (b : Bindings) (s : Store) : Except Misfit (Option Store) := do
  let g ← op.geometry b
  let xs ← b.elements s (.source 0)
  let target ← b.requireSingle (.destination 0)
  s.fill? target (output? arith op g xs)

/-- A window fits into an input that has an output, and there are no more windows than elements. -/
theorem le_of_outputExtent? {axis : Fin 2} {n m : Nat} (h : op.outputExtent? axis n = some m) :
    op.window.along axis ≤ n ∧ m ≤ n ∧ 0 < m := by
  unfold outputExtent? at h
  dsimp only at h
  split at h
  · cases h
  · rename_i hfits
    have hle := Nat.div_le_self (n - op.window.along axis) (op.stride.along axis)
    rw [Option.some.injEq] at h
    generalize (n - op.window.along axis) / op.stride.along axis = count at hle h
    omega

/-- The products of the extents of an input that exists are formed one after the other. -/
theorem products_lt {n : Nat} (h : Layout.channelsLast.elementCount? g.inputSizes = some n) :
    g.batch * g.input.height < sizeLimit ∧
      g.batch * g.input.height * g.input.width < sizeLimit ∧
      g.batch * g.input.height * g.input.width * g.channels < sizeLimit := by
  simp only [Layout.elementCount?, Layout.physicalSizes, PoolGeometry.inputSizes, product?,
    productFrom?, List.cons_append, List.nil_append, Option.bind_eq_some_iff, times?_eq_some] at h
  obtain ⟨_, ⟨rfl, -⟩, _, ⟨rfl, himages⟩, _, ⟨rfl, hlines⟩, _, ⟨rfl, hall⟩, -⟩ := h
  rw [Nat.one_mul] at himages hlines hall
  exact ⟨himages, hlines, hall⟩

/-- The length of a line is a size unless there are no images. -/
theorem batch_eq_zero_of_lineLength (hpools : op.Pools b.descriptors g) {n : Nat}
    (hcount : Layout.channelsLast.elementCount? g.inputSizes = some n)
    (h : sizeLimit ≤ g.lineLength) : g.batch = 0 := by
  obtain ⟨-, hwidth, -⟩ := le_of_outputExtent? hpools.width
  obtain ⟨-, hheight, hpos⟩ := le_of_outputExtent? hpools.height
  refine Decidable.byContradiction fun hbatch => Nat.not_lt.2 h ?_
  calc g.output.width * g.channels ≤ g.input.width * g.channels := Nat.mul_le_mul_right _ hwidth
    _ ≤ g.batch * g.input.height * (g.input.width * g.channels) :=
      Nat.le_mul_of_pos_left _ (Nat.mul_pos (Nat.pos_of_ne_zero hbatch) (by omega))
    _ = g.batch * g.input.height * g.input.width * g.channels := (Nat.mul_assoc ..).symm
    _ < sizeLimit := (products_lt hcount).2.2

/-- The split of an output fails only for lines that are too long. -/
theorem split?_eq (hpools : op.Pools b.descriptors g) {n : Nat}
    (hcount : Layout.channelsLast.elementCount? g.inputSizes = some n) :
    g.split? = if sizeLimit ≤ g.lineLength then none
      else some (if g.lineLength = 0 then []
        else (List.range g.lines).map fun i => (i, g.lineLength)) := by
  obtain ⟨-, hwidth, -⟩ := le_of_outputExtent? hpools.width
  obtain ⟨-, hheight, -⟩ := le_of_outputExtent? hpools.height
  obtain ⟨himages, -, hall⟩ := products_lt hcount
  have hlines : times? g.batch g.output.height = some g.lines :=
    times?_eq_some.2 ⟨rfl, Nat.lt_of_le_of_lt (Nat.mul_le_mul_left _ hheight) himages⟩
  have hproduct : times? g.lines g.lineLength = some (g.lines * g.lineLength) := by
    refine times?_eq_some.2 ⟨rfl, ?_⟩
    calc g.lines * g.lineLength
        ≤ g.batch * g.input.height * (g.input.width * g.channels) :=
          Nat.mul_le_mul (Nat.mul_le_mul_left _ hheight) (Nat.mul_le_mul_right _ hwidth)
      _ = g.batch * g.input.height * g.input.width * g.channels := (Nat.mul_assoc ..).symm
      _ < sizeLimit := hall
  unfold PoolGeometry.split?
  by_cases hlong : sizeLimit ≤ g.lineLength
  · have hlength : times? g.output.width g.channels = none := if_neg (Nat.not_lt.2 hlong)
    rw [if_pos hlong, hlength]
    rfl
  · have hlength : times? g.output.width g.channels = some g.lineLength :=
      times?_eq_some.2 ⟨rfl, Nat.not_le.1 hlong⟩
    rw [if_neg hlong, hlength, Option.bind_some, hlines, Option.bind_some, hproduct,
      Option.bind_some]
    split
    · rfl
    · rename_i hpos
      exact chunks?_eq_some (Nat.pos_of_ne_zero hpos)

/-- The output fails only for lines that are too long. -/
theorem output?_eq (hpools : op.Pools b.descriptors g) {xs : Array Single}
    (hcount : Layout.channelsLast.elementCount? g.inputSizes = some xs.size) :
    output? arith op g xs =
      if sizeLimit ≤ g.lineLength then none else some (op.computed arith g xs) := by
  unfold output?
  rw [split?_eq hpools hcount]
  by_cases hlong : sizeLimit ≤ g.lineLength
  · rw [if_pos hlong, if_pos hlong]
    rfl
  · rw [if_neg hlong, if_neg hlong, Option.bind_some,
      computed?_eq_some arith ⟨hpools.height, hpools.width⟩ hcount]
    by_cases hbatch : g.batch = 0
    · have hnone : g.lines = 0 := by rw [PoolGeometry.lines, hbatch, Nat.zero_mul]
      rw [hnone, List.range_zero, List.map_nil, if_pos (by split <;> rfl)]
    · -- there is an image, and its extents are at least those of the window
      obtain ⟨hwindowWidth, -⟩ := le_of_outputExtent? hpools.width
      obtain ⟨hwindowHeight, -⟩ := le_of_outputExtent? hpools.height
      have hwindow : op.window.height * op.window.width < sizeLimit :=
        calc op.window.height * op.window.width ≤ g.input.height * g.input.width :=
              Nat.mul_le_mul hwindowHeight hwindowWidth
          _ ≤ g.batch * (g.input.height * g.input.width) :=
            Nat.le_mul_of_pos_left _ (Nat.pos_of_ne_zero hbatch)
          _ = g.batch * g.input.height * g.input.width := (Nat.mul_assoc ..).symm
          _ < sizeLimit := (products_lt hcount).2.1
      rw [times?_eq_some.2 ⟨rfl, hwindow⟩, Option.bind_some, ite_self]

/-- The destination takes as many elements as the output has. -/
theorem Pools.exists_fill (hpools : op.Pools b.descriptors g) (hs : s.Has b)
    (hlast : ChannelsLast b.descriptors) {t : Memory} (ht : b.BindsSingle (.destination 0) t)
    {xs : Array Single} (hsize : xs.size = g.lines * g.lineLength) :
    ∃ s', s.fill t xs = .ok s' := by
  refine ⟨_, (s.fill_eq_ok_iff _ t _).2 ⟨ht.2, ?_, rfl⟩⟩
  rw [hpools.size_target hlast ht (hs _ t ht.1).2, hsize]

/-- On operands that exist the one check that can fail is that of the length of a line. -/
theorem splitRun?_eq (hs : s.Has b) (hg : op.geometry b = .ok g) :
    splitRun? arith op b s = (op.run arith b s).map fun s' =>
      if sizeLimit ≤ g.lineLength then none else some s' := by
  obtain ⟨hpools, hlast⟩ := (op.geometry_eq_ok_iff b g).1 hg
  refine bind_eq_map fun g' hg' => bind_eq_map fun xs hxs => bind_eq_map fun target htarget => ?_
  rw [hg, Except.ok.injEq] at hg'
  subst hg'
  obtain ⟨s', hfill⟩ := hpools.exists_fill hs hlast
    ((b.requireSingle_eq_ok_iff _ target).1 htarget) (op.size_computed arith g xs)
  rw [output?_eq arith hpools (elementCount?_source hs hg hxs)]
  exact Store.fill?_ite hfill

end Pooling

namespace StandardOperation

/-- Let a kernel say yes to operands that exist. A product of matrices passes all checks by rows. By
    tiles it fails one exactly if the length of a band is out of range and no bias is bound; there
    are no rows, no terms and no bias of `f32` elements then, and a bias of others makes the run fail
    before the bands are formed. The program ends exactly if the length wraps around to zero as well.
    A pooling fails a check exactly if the length of a line is out of range, and then there are no
    images. -/
theorem sizes_in_range_unless_empty {σ : Type} (arith : Arithmetic) {b : Bindings}
    {s : Session σ} (hs : s.store.Has b) :
    (∀ (op : MatMul) (name : String) (schedule : Product.Schedule),
      ((op.runner arith name schedule).update b s).1 = .ok true →
        ∃ z, op.resolve b = .ok z ∧
          op.run? arith name schedule b s.store =
            (if schedule = .byTile ∧ sizeLimit ≤ z.bandLength ∧ b.get? .bias = none then .ok none
            else (op.run arith name schedule b s.store).map some) ∧
          (op.run arith name schedule b s.store = .error .emptyBands ↔
            schedule = .byTile ∧ z.wraps = true ∧ b.get? .bias = none) ∧
          (z.wraps = true → sizeLimit ≤ z.bandLength) ∧
          (sizeLimit ≤ z.bandLength →
            z.rows = 0 ∧ z.inner = 0 ∧ ∀ m, ¬b.BindsSingle .bias m)) ∧
    ∀ op : Pooling, ((Runner.onStore op.accepts (op.run arith)).update b s).1 = .ok true →
      ∃ g, op.geometry b = .ok g ∧
        op.splitRun? arith b s.store = (op.run arith b s.store).map (fun s' =>
          if sizeLimit ≤ g.lineLength then none else some s') ∧
        (sizeLimit ≤ g.lineLength → g.batch = 0) := by
  refine ⟨fun op name schedule hupdate => ?_, fun op hupdate => ?_⟩
  · obtain ⟨hplanar, z, hz, htiles⟩ :=
      (op.accepts_eq_ok_true_iff schedule b).1 (Runner.accepts_of_onStore_update hupdate)
    have hresolve := (op.resolve_eq_ok_iff b z).2 hz
    obtain ⟨hchecked, hends⟩ := MatMul.run?_eq arith hs hplanar hresolve name htiles
    exact ⟨z, hresolve, hchecked, hends, z.le_bandLength_of_wraps,
      hz.empty_of_bandLength hs hplanar⟩
  · obtain ⟨⟨g, hpools⟩, hlast⟩ :=
      (op.accepts_eq_ok_true_iff b).1 (Runner.accepts_of_onStore_update hupdate)
    have hg := (op.geometry_eq_ok_iff b g).2 ⟨hpools, hlast⟩
    obtain ⟨d, hd, htype, -⟩ := hpools.source
    obtain ⟨m, hm, rfl⟩ := (Bindings.descriptors_get?_eq_some_iff b _ d).1 hd
    have hxs := (b.elements_eq_ok_iff s.store (.source 0) _).2 ⟨m, ⟨hm, htype⟩, rfl⟩
    exact ⟨g, hg, Pooling.splitRun?_eq arith hs hg, Pooling.batch_eq_zero_of_lineLength hpools
      (Pooling.elementCount?_source hs hg hxs)⟩

/-- The factors and the product of two square matrices that are tiles. -/
def squares : Bindings :=
  .ofList [(.source 0, ⟨⟨.f32, .ofSizes [4, 4], .planar⟩, 0⟩),
    (.weights, ⟨⟨.f32, .ofSizes [4, 4], .planar⟩, 1⟩),
    (.destination 0, ⟨⟨.f32, .ofSizes [4, 4], .planar⟩, 2⟩)]

/-- An image of two lines of two elements, and one for its largest element. -/
def smallImages : Bindings :=
  .ofList [(.source 0, ⟨⟨.f32, .ofSizes [1, 1, 2, 2], .channelsLast⟩, 0⟩),
    (.destination 0, ⟨⟨.f32, .ofSizes [1, 1, 1, 1], .channelsLast⟩, 1⟩)]

/-- Memories of the given sizes in bytes. -/
def zeroMemories (sizes : List Nat) : Session Unit :=
  ⟨⟨(sizes.map Bytes.zeros).toArray⟩, ()⟩

/-- A product of one tile and a pooling of one window have all sizes in range. -/
theorem squares_in_range :
    ((zeroMemories [64, 64, 64]).store.Has squares ∧
      ∀ schedule, (((⟨false⟩ : MatMul).runner .single "product" schedule).update squares
          (zeroMemories [64, 64, 64])).1 = .ok true ∧
        (⟨false⟩ : MatMul).run? .single "product" schedule squares
            (zeroMemories [64, 64, 64]).store =
          ((⟨false⟩ : MatMul).run .single "product" schedule squares
            (zeroMemories [64, 64, 64]).store).map some) ∧
    (zeroMemories [16, 4]).store.Has smallImages ∧
      (⟨.max, ⟨2, 2⟩, ⟨1, 1⟩⟩ : Pooling).splitRun? .single smallImages
          (zeroMemories [16, 4]).store =
        ((⟨.max, ⟨2, 2⟩, ⟨1, 1⟩⟩ : Pooling).run .single smallImages
          (zeroMemories [16, 4]).store).map some := by
  have hsquares : (zeroMemories [64, 64, 64]).store.Has squares := .of_entries (by
    show ∀ e ∈ [_, _, _], _
    simp only [List.forall_mem_cons]
    exact ⟨⟨by decide, rfl⟩, ⟨by decide, rfl⟩, ⟨by decide, rfl⟩, List.forall_mem_nil _⟩)
  have himages : (zeroMemories [16, 4]).store.Has smallImages := .of_entries (by
    show ∀ e ∈ [_, _], _
    simp only [List.forall_mem_cons]
    exact ⟨⟨by decide, rfl⟩, ⟨by decide, rfl⟩, List.forall_mem_nil _⟩)
  refine ⟨⟨hsquares, fun schedule => ?_⟩, himages, ?_⟩
  · have hupdate : (((⟨false⟩ : MatMul).runner .single "product" schedule).update squares
        (zeroMemories [64, 64, 64])).1 = .ok true := by
      cases schedule <;> rfl
    obtain ⟨z, hz, hrun, -⟩ :=
      (sizes_in_range_unless_empty .single hsquares).1 ⟨false⟩ "product" schedule hupdate
    cases hz
    exact ⟨hupdate, hrun.trans (if_neg fun h => absurd h.2.1 (by decide))⟩
  · obtain ⟨g, hg, hrun, -⟩ :=
      (sizes_in_range_unless_empty .single himages).2 ⟨.max, ⟨2, 2⟩, ⟨1, 1⟩⟩ rfl
    cases hg
    exact hrun

/-- A product without rows and terms, whose columns are a quarter of the range of sizes. -/
def noRows : Bindings :=
  .ofList [(.source 0, ⟨⟨.f32, .ofSizes [0, 0], .planar⟩, 0⟩),
    (.weights, ⟨⟨.f32, .ofSizes [0, 4611686018427387904], .planar⟩, 1⟩),
    (.destination 0, ⟨⟨.f32, .ofSizes [0, 4611686018427387904], .planar⟩, 2⟩)]

/-- The tiled kernel says yes to its operands, but the length of a band is out of range and wraps
    around to zero, so that the program ends when it runs. By rows all checks pass. -/
theorem noRows_out_of_range :
    let op : MatMul := ⟨false⟩
    let s := zeroMemories [0, 0, 0]
    s.store.Has noRows ∧
      ((op.runner .single MatMul.tiledName .byTile).update noRows s).1 = .ok true ∧
      op.run? .single MatMul.tiledName .byTile noRows s.store = .ok none ∧
      ((op.runner .single MatMul.tiledName .byTile).execute noRows s).1 =
        .error (.ended Misfit.emptyBands.failure) ∧
      op.run? .single MatMul.referenceName .byRow noRows s.store =
        (op.run .single MatMul.referenceName .byRow noRows s.store).map some := by
  refine ⟨.of_entries ?_, rfl, rfl, rfl, rfl⟩
  show ∀ e ∈ [_, _, _], _
  simp only [List.forall_mem_cons]
  exact ⟨⟨by decide, rfl⟩, ⟨by decide, rfl⟩, ⟨by decide, rfl⟩, List.forall_mem_nil _⟩

end StandardOperation

end KernelDispatch
