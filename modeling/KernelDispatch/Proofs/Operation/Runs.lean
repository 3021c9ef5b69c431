import KernelDispatch.Operation.Standard
import KernelDispatch.Proofs.Dispatch.Quiet
import KernelDispatch.Proofs.Memory.Singles
import KernelDispatch.Proofs.Operation.Elementwise
import KernelDispatch.Proofs.Operation.MatMul
import KernelDispatch.Proofs.Operation.Pooling

/-
  What the runs of the standard kernels do. Each has one lemma that says when it succeeds and what it
  leaves (`Elementwise.run_eq_ok_iff`, `MatMul.run_eq_ok_iff`, `Pooling.run_eq_ok_iff`): it
  overwrites the destination, all of it, and changes nothing else. One of them can end the program
  (`MatMul.run_eq_emptyBands_iff`); callers are told of everything else that goes wrong.
-/

namespace KernelDispatch

namespace Store

theorem fill_eq_ok_iff (s s' : Store) (m : Memory) (xs : Array Single) :
    s.fill m xs = .ok s' ↔ m.desc.elementType = .f32 ∧ (s.contents m).size = 4 * xs.size ∧
      s' = s.put m.cell (Bytes.ofSingles xs) := by
  unfold fill writePhysical byteLength
  by_cases htype : m.desc.elementType = .f32
  · rw [if_neg (by simp [htype])]
    by_cases hsize : (s.contents m).size = 4 * xs.size
    · rw [if_neg (by simp [hsize])]
      show Except.ok _ = Except.ok s' ↔ _
      simp only [Except.ok.injEq, htype, hsize, true_and]
      exact eq_comm
    · rw [if_pos hsize]
      show Except.error _ = Except.ok s' ↔ _
      simp [hsize]
  · rw [if_pos htype]
    show Except.error _ = Except.ok s' ↔ _
    simp [htype]

theorem fill_reports (s : Store) (m : Memory) (xs : Array Single) :
    Reports Misfit.isReported (s.fill m xs) :=
  .mapError fun _ => rfl

end Store

namespace Bindings

theorem BindsSingle.unique {b : Bindings} {p : Operand} {m m' : Memory} (h : b.BindsSingle p m)
    (h' : b.BindsSingle p m') : m = m' := Option.some.inj (h.1.symm.trans h'.1)

theorem BindsSingle.shape {b : Bindings} {p : Operand} {m : Memory} (h : b.BindsSingle p m)
    {sizes : List Nat} (hsizes : b.descriptors.HasSizes p sizes) :
    m.desc.shape = .ofSizes sizes := by
  obtain ⟨d, hd, -, hshape⟩ := hsizes
  rw [descriptors_get?_of_get? h.1, Option.some.injEq] at hd
  rw [hd, hshape]

theorem exists_bindsSingle {b : Bindings} {p : Operand} {sizes : List Nat}
    (h : b.descriptors.HasSizes p sizes) :
    ∃ m, b.BindsSingle p m ∧ m.desc.shape = .ofSizes sizes := by
  obtain ⟨d, hd, htype, hshape⟩ := h
  obtain ⟨m, hm, rfl⟩ := (descriptors_get?_eq_some_iff b p d).1 hd
  exact ⟨m, ⟨hm, htype⟩, hshape⟩

end Bindings

/-! ## Elementwise operations -/

namespace Elementwise

variable (arith : Arithmetic) (op : Elementwise)

/-- The operand that the second element of each pair comes from. -/
def second : Operand := if op.arity = 2 then .source 1 else .source 0

theorem mem_sources_iff (p : Operand) : p ∈ op.sources ↔ p = .source 0 ∨ p = op.second := by
  cases op <;> simp [sources, second, arity]

theorem run_eq_ok_iff (b : Bindings) (s s' : Store) : op.run arith b s = .ok s' ↔
    ∃ t m m', b.BindsSingle (.destination 0) t ∧ b.BindsSingle (.source 0) m ∧
      b.BindsSingle op.second m' ∧
      (s.contents m').singles.size = (s.contents m).singles.size ∧
      (s.contents t).size = 4 * (s.contents m).singles.size ∧
      s' = s.put t.cell (Bytes.ofSingles
        (Array.zipWith (op.apply arith) (s.contents m).singles (s.contents m').singles)) := by
  have hsecond : ∀ m, b.BindsSingle (.source 0) m → ∀ ys,
      op.secondElements b s (s.contents m).singles = .ok ys ↔
        ∃ m', b.BindsSingle op.second m' ∧ ys = (s.contents m').singles := by
    intro m hm ys
    unfold secondElements second
    split
    · exact b.elements_eq_ok_iff s _ ys
    · rw [Except.ok.injEq]
      constructor
      · rintro rfl
        exact ⟨m, hm, rfl⟩
      · rintro ⟨m', hm', rfl⟩
        rw [hm.unique hm']
  unfold run
  simp only [bind_eq_ok_iff, Bindings.requireSingle_eq_ok_iff,
    Bindings.elements_eq_ok_iff]
  constructor
  · rintro ⟨t, ht, _, ⟨m, hm, rfl⟩, ys, hys, h⟩
    obtain ⟨m', hm', rfl⟩ := (hsecond m hm ys).1 hys
    split at h
    · cases h
    · rename_i hsizes
      have hsizes := Decidable.not_not.1 hsizes
      obtain ⟨-, hsize, rfl⟩ := (s.fill_eq_ok_iff s' t _).1 h
      rw [Array.size_zipWith, hsizes, Nat.min_self] at hsize
      exact ⟨t, m, m', ht, hm, hm', hsizes, hsize, rfl⟩
  · rintro ⟨t, m, m', ht, hm, hm', hsizes, hsize, rfl⟩
    refine ⟨t, ht, _, ⟨m, hm, rfl⟩, _, (hsecond m hm _).2 ⟨m', hm', rfl⟩, ?_⟩
    rw [if_neg (Decidable.not_not.2 hsizes)]
    refine (s.fill_eq_ok_iff _ t _).2 ⟨ht.2, ?_, rfl⟩
    rw [Array.size_zipWith, hsizes, Nat.min_self]
    exact hsize

theorem run_reports (b : Bindings) (s : Store) : Reports Misfit.isReported (op.run arith b s) := by
  refine (b.requireSingle_reports _).bind fun t => (b.elements_reports s _).bind fun xs =>
    Reports.bind ?_ fun ys => ?_
  · unfold secondElements
    split
    · exact b.elements_reports s _
    · exact .ok _
  · split
    · exact .error rfl
    · exact s.fill_reports t _

/-- A run takes memories of one size in bytes, whatever their shapes and layouts. -/
theorem exists_run_of_sizes {b : Bindings} {s : Store} {t m m' : Memory}
    (ht : b.BindsSingle (.destination 0) t) (hm : b.BindsSingle (.source 0) m)
    (hm' : b.BindsSingle op.second m')
    (hsizes : (s.contents m').size = (s.contents m).size)
    (hsize : (s.contents t).size = 4 * ((s.contents m).size / 4)) :
    ∃ s', op.run arith b s = .ok s' := by
  refine ⟨_, (op.run_eq_ok_iff arith b s _).2 ⟨t, m, m', ht, hm, hm', ?_, ?_, rfl⟩⟩
  · rw [Bytes.size_singles, Bytes.size_singles, hsizes]
  · rw [Bytes.size_singles, hsize]

end Elementwise

/-! ## Matrix products -/

/-- The length of a band wraps around to zero only if it is no size. -/
theorem ProductSizes.le_bandLength_of_wraps {z : ProductSizes} (h : z.wraps = true) :
    sizeLimit ≤ z.bandLength := by
  simp only [wraps, Bool.and_eq_true, bne_iff_ne, beq_iff_eq] at h
  obtain ⟨hcolumns, hwraps⟩ := h
  exact Nat.le_of_dvd (Nat.mul_pos (by decide) (Nat.pos_of_ne_zero hcolumns))
    (Nat.dvd_of_mod_eq_zero hwraps)

/-- A run gets past the check of its tiles. -/
theorem ProductSizes.not_untiled_iff {z : ProductSizes} {schedule : Product.Schedule} :
    ¬(z.columns ≠ 0 ∧ schedule = .byTile ∧ !z.tiles) ↔
      (z.columns ≠ 0 → schedule = .byTile → z.tiles = true) := by
  simp

namespace MatMul

variable (arith : Arithmetic) (op : MatMul) (name : String) (schedule : Product.Schedule)

/-- The factors and the destination are bound to memories of `f32` elements. -/
theorem Resolves.binds {op : MatMul} {b : Bindings} {z : ProductSizes}
    (hz : op.Resolves b.descriptors z) :
    ∃ m m' t, b.BindsSingle (.source 0) m ∧ b.BindsSingle .weights m' ∧
      b.BindsSingle (.destination 0) t := by
  obtain ⟨m, hm, -⟩ := Bindings.exists_bindsSingle hz.left
  obtain ⟨m', hm', -⟩ := Bindings.exists_bindsSingle hz.weights
  obtain ⟨t, ht, -⟩ := Bindings.exists_bindsSingle hz.target
  exact ⟨m, m', t, hm, hm', ht⟩

/-- A planar destination has the elements of the product and nothing else. -/
theorem Resolves.size_target {op : MatMul} {b : Bindings} {s : Store} {z : ProductSizes}
    (hz : op.Resolves b.descriptors z) (hplanar : b.descriptors.allInLayout .planar = true)
    {t : Memory} (ht : b.BindsSingle (.destination 0) t) (hfit : s.Fits t) :
    (s.contents t).size = 4 * z.count := by
  have hlayout : t.desc.layout = .planar := (Descriptors.allInLayout_iff _ _).1 hplanar _ _
    (Bindings.descriptors_get?_of_get? ht.1)
  rw [hfit.size_eq ht.2 (ht.shape hz.target), hlayout]
  simp [Layout.physicalSizes, ProductSizes.count]

/-- The product that a run computes, from the bytes of the factors. -/
def product (z : ProductSizes) (s : Store) (m m' : Memory) (bias : Option (Array Single)) :
    Product :=
  { z with
    transposed := op.transposed
    left := (s.contents m).singles
    weights := (s.contents m').singles
    bias }

theorem run_eq_ok_iff (b : Bindings) (s s' : Store) : op.run arith name schedule b s = .ok s' ↔
    ∃ z m m' bias t, op.Resolves b.descriptors z ∧ b.BindsSingle (.source 0) m ∧
      b.BindsSingle .weights m' ∧ biasElements b s = .ok bias ∧
      b.BindsSingle (.destination 0) t ∧
      (z.columns ≠ 0 → schedule = .byTile → z.tiles = true) ∧
      (schedule = .byTile → z.wraps = false) ∧ (s.contents t).size = 4 * z.count ∧
      s' = s.put t.cell (Bytes.ofSingles ((op.product z s m m' bias).computed arith schedule)) := by
  unfold run
  simp only [bind_eq_ok_iff, resolve_eq_ok_iff, Bindings.requireSingle_eq_ok_iff,
    Bindings.elements_eq_ok_iff]
  constructor
  · rintro ⟨z, hz, _, ⟨m, hm, rfl⟩, _, ⟨m', hm', rfl⟩, bias, hbias, t, ht, h⟩
    split at h
    · cases h
    · rename_i htiles
      split at h
      · cases h
      · rename_i hwraps
        obtain ⟨-, hsize, rfl⟩ := (s.fill_eq_ok_iff s' t _).1 h
        rw [Product.size_computed] at hsize
        refine ⟨z, m, m', bias, t, hz, hm, hm', hbias, ht,
          ProductSizes.not_untiled_iff.1 htiles, fun hs => ?_, hsize, rfl⟩
        exact Bool.eq_false_iff.2 fun h => hwraps ⟨hs, h⟩
  · rintro ⟨z, m, m', bias, t, hz, hm, hm', hbias, ht, htiles, hwraps, hsize, rfl⟩
    refine ⟨z, hz, _, ⟨m, hm, rfl⟩, _, ⟨m', hm', rfl⟩, bias, hbias, t, ht, ?_⟩
    rw [if_neg (ProductSizes.not_untiled_iff.2 htiles),
      if_neg fun h => Bool.eq_false_iff.1 (hwraps h.1) h.2]
    refine (s.fill_eq_ok_iff _ t _).2 ⟨ht.2, ?_, rfl⟩
    rw [Product.size_computed]
    exact hsize

theorem resolve_reports (b : Bindings) : Reports Misfit.isReported (op.resolve b) := by
  refine (b.sizes_reports _).bind fun left => (b.sizes_reports _).bind fun weights =>
    (b.sizes_reports _).bind fun target => ?_
  split
  · generalize (if op.transposed = true then _ else _) = pair
    dsimp only
    split
    · exact .error rfl
    · split
      · exact .error rfl
      · refine Reports.bind ?_ fun _ => .ok _
        unfold checkBias
        split
        · exact .ok _
        · refine (Descriptor.concreteSizes_reports _).bind fun sizes => ?_
          split
          · exact .ok _
          · exact .error rfl
  · exact .error rfl

theorem biasElements_reports (b : Bindings) (s : Store) :
    Reports Misfit.isReported (biasElements b s) := by
  unfold biasElements
  split
  · exact .ok _
  · have hreports := b.elements_reports s .bias
    cases hxs : b.elements s .bias with
    | error e => exact .error (hreports e hxs)
    | ok xs => exact .ok _

/-- A run ends the program if it works by tiles, everything it reads is there and the length of a
    band wraps around to zero. -/
theorem run_eq_emptyBands_iff (b : Bindings) (s : Store) :
    op.run arith name schedule b s = .error .emptyBands ↔ schedule = .byTile ∧
      (∃ bias, biasElements b s = .ok bias) ∧
      ∃ z, op.Resolves b.descriptors z ∧ z.tiles = true ∧ z.wraps = true := by
  unfold run
  simp only [(op.resolve_reports b).bind_eq_emptyBands_iff,
    (b.elements_reports s _).bind_eq_emptyBands_iff,
    (biasElements_reports b s).bind_eq_emptyBands_iff,
    (b.requireSingle_reports _).bind_eq_emptyBands_iff, resolve_eq_ok_iff,
    Bindings.requireSingle_eq_ok_iff, Bindings.elements_eq_ok_iff]
  constructor
  · rintro ⟨z, hz, _, -, _, -, bias, hbias, t, -, h⟩
    split at h
    · cases h
    · rename_i htiles
      split at h
      · rename_i hwraps
        have hcolumns : z.columns ≠ 0 := by
          have hwraps := hwraps.2
          simp only [ProductSizes.wraps, Bool.and_eq_true, bne_iff_ne] at hwraps
          exact hwraps.1
        exact ⟨hwraps.1, ⟨bias, hbias⟩, z, hz,
          ProductSizes.not_untiled_iff.1 htiles hcolumns hwraps.1, hwraps.2⟩
      · cases s.fill_reports t _ _ h
  · rintro ⟨hs, ⟨bias, hbias⟩, z, hz, htiles, hwraps⟩
    obtain ⟨m, m', t, hm, hm', ht⟩ := hz.binds
    refine ⟨z, hz, _, ⟨m, hm, rfl⟩, _, ⟨m', hm', rfl⟩, bias, hbias, t, ht, ?_⟩
    rw [if_neg (ProductSizes.not_untiled_iff.2 fun _ _ => htiles), if_pos ⟨hs, hwraps⟩]
    rfl

variable {op} in
/-- A destination with a row has at least as many bytes as a band has elements. -/
theorem Resolves.wraps_eq_false {b : Bindings} {s : Store} {z : ProductSizes}
    (hz : op.Resolves b.descriptors z)
    (hfits : ∀ m, b.get? (.destination 0) = some m → s.Fits m) (hrows : 0 < z.rows) :
    z.wraps = false := by
  obtain ⟨t, ht, hshape⟩ := Bindings.exists_bindsSingle hz.target
  have hfit := hfits t ht.1
  have hbytes := hfit.size_lt
  rw [hfit.size_eq ht.2 hshape] at hbytes
  refine Bool.eq_false_iff.2 fun hwraps => Nat.not_le.2 ?_ (z.le_bandLength_of_wraps hwraps)
  calc z.bandLength ≤ 4 * (z.rows * z.columns) :=
        Nat.mul_le_mul_left 4 (Nat.le_mul_of_pos_left _ hrows)
    _ = 4 * Index.volume [z.rows, z.columns] := by simp
    _ ≤ 4 * Index.volume (t.desc.layout.physicalSizes [z.rows, z.columns]) :=
        Nat.mul_le_mul_left 4 (Layout.volume_le_volume_physicalSizes (hfit.fitsRank hshape))
    _ < sizeLimit := hbytes

/-- The bias has elements if it is bound to `f32` elements or not at all. -/
theorem exists_biasElements_iff (b : Bindings) (s : Store) :
    (∃ bias, biasElements b s = .ok bias) ↔
      ∀ m, b.get? .bias = some m → m.desc.elementType = .f32 := by
  unfold biasElements
  cases hm : b.get? .bias with
  | none => simp
  | some m =>
    simp only [Option.some.injEq, forall_eq']
    constructor
    · rintro ⟨bias, h⟩
      cases hxs : b.elements s .bias with
      | error e =>
        rw [hxs] at h
        cases h
      | ok xs =>
        obtain ⟨m', ⟨hget, htype⟩, -⟩ := (b.elements_eq_ok_iff s _ xs).1 hxs
        rw [hm, Option.some.injEq] at hget
        rw [hget, htype]
    · intro htype
      rw [(b.elements_eq_ok_iff s _ _).2 ⟨m, ⟨hm, htype⟩, rfl⟩]
      exact ⟨_, rfl⟩

end MatMul

/-! ## Poolings -/

namespace Pooling

variable (arith : Arithmetic) (op : Pooling)

theorem run_eq_ok_iff (b : Bindings) (s s' : Store) : op.run arith b s = .ok s' ↔
    ∃ g m t, (op.Pools b.descriptors g ∧ ChannelsLast b.descriptors) ∧
      b.BindsSingle (.source 0) m ∧ b.BindsSingle (.destination 0) t ∧
      (s.contents t).size = 4 * (op.computed arith g (s.contents m).singles).size ∧
      s' = s.put t.cell (Bytes.ofSingles (op.computed arith g (s.contents m).singles)) := by
  unfold run
  simp only [bind_eq_ok_iff, geometry_eq_ok_iff, Bindings.requireSingle_eq_ok_iff,
    Bindings.elements_eq_ok_iff]
  constructor
  · rintro ⟨g, hg, _, ⟨m, hm, rfl⟩, t, ht, h⟩
    obtain ⟨-, hsize, rfl⟩ := (s.fill_eq_ok_iff s' t _).1 h
    exact ⟨g, m, t, hg, hm, ht, hsize, rfl⟩
  · rintro ⟨g, m, t, hg, hm, ht, hsize, rfl⟩
    exact ⟨g, hg, _, ⟨m, hm, rfl⟩, t, ht, (s.fill_eq_ok_iff _ t _).2 ⟨ht.2, hsize, rfl⟩⟩

theorem geometry_reports (b : Bindings) : Reports Misfit.isReported (op.geometry b) := by
  have hextent : ∀ axis n, Reports Misfit.isReported (op.outputExtent axis n) := by
    intro axis n
    unfold outputExtent
    split
    · exact .ok _
    · exact .error rfl
  refine (b.requireSingle_reports _).bind fun source => (b.requireSingle_reports _).bind
    fun target => ?_
  split
  · exact .error rfl
  · refine (Descriptor.concreteSizes_reports _).bind fun sizes =>
      (Descriptor.concreteSizes_reports _).bind fun targetSizes => ?_
    split
    · refine (hextent _ _).bind fun height => (hextent _ _).bind fun width => ?_
      dsimp only
      split
      · exact .error rfl
      · exact .ok _
    · exact .error rfl

theorem run_reports (b : Bindings) (s : Store) : Reports Misfit.isReported (op.run arith b s) :=
  (op.geometry_reports b).bind fun _ => (b.elements_reports s _).bind fun _ =>
    (b.requireSingle_reports _).bind fun t => s.fill_reports t _

/-- A destination whose channels are last has the elements of all output images and nothing else. -/
theorem Pools.size_target {op : Pooling} {b : Bindings} {s : Store} {g : PoolGeometry}
    (hg : op.Pools b.descriptors g) (hlast : ChannelsLast b.descriptors) {t : Memory}
    (ht : b.BindsSingle (.destination 0) t) (hfit : s.Fits t) :
    (s.contents t).size = 4 * (g.lines * g.lineLength) := by
  have hlayout : t.desc.layout = .channelsLast :=
    hlast _ (by simp) _ (Bindings.descriptors_get?_of_get? ht.1)
  rw [hfit.size_eq ht.2 (ht.shape hg.target), hlayout]
  simp [Layout.physicalSizes, PoolGeometry.outputSizes, PoolGeometry.lines,
    PoolGeometry.lineLength, Nat.mul_assoc]

/-- The number of elements of all output images. -/
theorem size_computed (g : PoolGeometry) (xs : Array Single) :
    (op.computed arith g xs).size = g.lines * g.lineLength := by
  unfold computed
  split
  · rename_i h
    rw [h, Nat.mul_zero]
    rfl
  · rw [List.size_toArray]
    have hline : ∀ r, (op.outputLine arith g xs (r / g.output.height)
        (r % g.output.height)).length = g.lineLength := fun r => by
      rw [outputLine, List.length_map, List.length_range]
    rw [List.length_flatMap, List.map_congr_left (fun r _ => hline r), List.map_const',
      List.sum_replicate_nat, List.length_range]

end Pooling

/-! ## Runners -/

namespace Runner

variable {σ : Type} {accepts : Bindings → Except MemoryError Bool}
  {run : Bindings → Store → Except Misfit Store}

/-- A run overwrites the destination and changes nothing else. -/
def WritesDestination (run : Bindings → Store → Except Misfit Store) : Prop :=
  ∀ b s s', run b s = .ok s' → ∃ t bytes, b.BindsSingle (.destination 0) t ∧
    bytes.size = (s.contents t).size ∧ s' = s.put t.cell bytes

/-- Memories keep their sizes. -/
theorem WritesDestination.fits (h : WritesDestination run) {b : Bindings} {s s' : Store}
    (hrun : run b s = .ok s') {m : Memory} (hm : s.Fits m) : s'.Fits m := by
  obtain ⟨t, bytes, -, hsize, rfl⟩ := h b s s' hrun
  unfold Store.Fits Store.contents at hm ⊢
  rw [Store.size_put s t hsize]
  exact hm

theorem onStore_quiet : (onStore (σ := σ) accepts run).Quiet := fun _ _ => rfl

theorem onStore_execute_isOk_iff (b : Bindings) (s : Session σ) :
    ((onStore accepts run).execute b s).1 = .ok () ↔ ∃ s', run b s.store = .ok s' := by
  unfold onStore
  dsimp only
  cases run b s.store <;> simp

/-- A run ends the program if that is what becomes of it on the store. -/
theorem onStore_execute_ends_iff (b : Bindings) (s : Session σ) :
    (∃ e, ((onStore accepts run).execute b s).1 = .error e ∧ e.isReported = false) ↔
      run b s.store = .error .emptyBands := by
  unfold onStore
  dsimp only
  cases run b s.store with
  | ok store => simp
  | error e =>
    simp only [Except.error.injEq, exists_eq_left', Misfit.isReported_error]
    cases e <;> simp [Misfit.isReported]

theorem onStore_execute_of_run {b : Bindings} {s : Session σ} {store : Store}
    (h : run b s.store = .ok store) :
    (onStore accepts run).execute b s = (.ok (), { s with store := store }) := by
  unfold onStore
  dsimp only
  rw [h]

theorem onStore_execute_eq_ok {b : Bindings} {s s' : Session σ}
    (h : (onStore accepts run).execute b s = (.ok (), s')) : run b s.store = .ok s'.store := by
  unfold onStore at h
  dsimp only at h
  split at h
  · rename_i store heq
    cases h
    exact heq
  · cases h

theorem accepts_of_onStore_update {b : Bindings} {s : Session σ}
    (h : ((onStore accepts run).update b s).1 = .ok true) : accepts b = .ok true := by
  change (accepts b).mapError Error.memory = .ok true at h
  cases haccepts : accepts b with
  | error e =>
    rw [haccepts] at h
    cases h
  | ok answer =>
    rw [haccepts] at h
    cases h
    rfl

variable (accepts) in
/-- A run changes nothing, or the bytes of the destination. -/
theorem onStore_execute_cases (h : WritesDestination run) (b : Bindings) (s : Session σ) :
    ((onStore accepts run).execute b s).2 = s ∨
      ∃ t bytes, b.BindsSingle (.destination 0) t ∧ bytes.size = (s.store.contents t).size ∧
        ((onStore accepts run).execute b s).2.store = s.store.put t.cell bytes := by
  unfold onStore
  dsimp only
  split
  · rename_i store heq
    obtain ⟨t, bytes, ht, hsize, hstore⟩ := h b s.store store heq
    exact .inr ⟨t, bytes, ht, hsize, hstore⟩
  · exact .inl rfl

theorem onStore_writesOutputs (h : WritesDestination run) :
    (onStore (σ := σ) accepts run).WritesOutputs := by
  intro b s c hc
  rcases onStore_execute_cases accepts h b s with hs | ⟨t, bytes, ht, -, hs⟩
  · rw [hs]
  · rw [hs, Store.bytes_put, if_neg fun heq => hc _ t ht.1 rfl heq.1]

theorem onStore_confined (h : WritesDestination run) :
    KernelDispatch.Confined (onStore (σ := σ) accepts run).execute := by
  refine ⟨fun b s => ?_, fun b s c _ => ?_, fun b s c _ hc =>
    onStore_writesOutputs h b s c fun p m hm _ => hc p m hm⟩
  · rcases onStore_execute_cases accepts h b s with hs | ⟨t, bytes, -, -, hs⟩
    · exact Nat.le_of_eq (by rw [hs])
    · rw [hs]
      exact Nat.le_of_eq Array.size_setIfInBounds.symm
  · rcases onStore_execute_cases accepts h b s with hs | ⟨t, bytes, -, hsize, hs⟩
    · rw [hs]
    · rw [hs]
      exact s.store.size_put t hsize c

end Runner

section Writes

variable (arith : Arithmetic)

theorem Elementwise.writesDestination (op : Elementwise) :
    Runner.WritesDestination (op.run arith) := by
  intro b s s' h
  obtain ⟨t, m, m', ht, -, -, hsizes, hsize, rfl⟩ := (op.run_eq_ok_iff arith b s s').1 h
  refine ⟨t, _, ht, ?_, rfl⟩
  rw [Bytes.size_ofSingles, Array.size_zipWith, hsizes, Nat.min_self, hsize]

theorem MatMul.writesDestination (op : MatMul) (name : String) (schedule : Product.Schedule) :
    Runner.WritesDestination (op.run arith name schedule) := by
  intro b s s' h
  obtain ⟨z, m, m', bias, t, -, -, -, -, ht, -, -, hsize, rfl⟩ :=
    (op.run_eq_ok_iff arith name schedule b s s').1 h
  refine ⟨t, _, ht, ?_, rfl⟩
  rw [Bytes.size_ofSingles, Product.size_computed, hsize]
  rfl

theorem Pooling.writesDestination (op : Pooling) : Runner.WritesDestination (op.run arith) := by
  intro b s s' h
  obtain ⟨g, m, t, -, -, ht, hsize, rfl⟩ := (op.run_eq_ok_iff arith b s s').1 h
  exact ⟨t, _, ht, by rw [Bytes.size_ofSingles, hsize], rfl⟩

end Writes

end KernelDispatch
