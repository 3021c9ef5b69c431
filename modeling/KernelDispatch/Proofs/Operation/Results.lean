import KernelDispatch.Proofs.Operation.Products
import KernelDispatch.Proofs.Operation.Tensors

/-
  What the standard operations compute, on tensors, and when a run computes it. The kernels read and
  write in physical order, so a run that succeeds is right if the operands are aligned: sources of an
  elementwise operation have the shape of the destination and their elements in the same places, the
  factors of a product have theirs where planar ones have them (`Elementwise.computes_of_run`,
  `MatMul.computes_of_run`). A pooling checks all of that itself (`Pooling.computes_of_run`).
-/

namespace KernelDispatch

/-- The layouts have the elements of a tensor in the same places. -/
def Layout.AgreesOn (l l' : Layout) (sizes : List Nat) : Prop :=
  ∀ index, Index.InBounds sizes index → l.offset sizes index = l'.offset sizes index

/-- The bound memories exist in the sizes of their descriptors. -/
def Store.Has (s : Store) (b : Bindings) : Prop :=
  ∀ p m, b.get? p = some m → m.cell < s.cells.size ∧ s.Fits m

theorem World.Owns.has {σ : Type} {w : World σ} {b : Bindings} (h : w.Owns b) : w.store.Has b :=
  fun p m hm => ⟨(h.held p m hm).1, h.fits p m hm⟩

/-! ## Elementwise operations -/

namespace Elementwise

variable (arith : Arithmetic) (op : Elementwise)

/-- The result for tensors of the same sizes. -/
def result (x y : Tensor) : Tensor :=
  ⟨x.sizes, fun index => op.apply arith (x.element index) (y.element index)⟩

/-- The sources are tensors of the same sizes, and the destination is their result. -/
def Computes (b : Bindings) (s s' : Store) : Prop :=
  ∃ x y, b.HasTensor s (.source 0) x ∧ b.HasTensor s op.second y ∧ x.sizes = y.sizes ∧
    b.HasTensor s' (.destination 0) (op.result arith x y)

/-- The sources have the shape of the destination and their elements in the same places. -/
def Aligned (ds : Descriptors) : Prop :=
  ∀ p ∈ op.sources, ∀ d t, ds.get? p = some d → ds.get? (.destination 0) = some t →
    d.shape = t.shape ∧ d.layout.AgreesOn t.layout t.sizes

theorem aligned_of_uniform {ds : Descriptors} (h : op.Uniform ds) : op.Aligned ds := by
  obtain ⟨t, ht, hsources⟩ := h
  intro p hp d t' hd ht'
  obtain ⟨d', hd', hshape, hlayout⟩ := hsources p hp
  rw [hd, Option.some.injEq] at hd'
  rw [ht, Option.some.injEq] at ht'
  subst hd' ht'
  exact ⟨hshape, fun index _ => by rw [hlayout]⟩

/-- A run goes by places: each element of the buffer of the destination, padding included, is made
    of the elements that the sources have in its place. -/
theorem single_of_run {b : Bindings} {s s' : Store} (hrun : op.run arith b s = .ok s')
    {t m m' : Memory} (ht : b.BindsSingle (.destination 0) t) (hm : b.BindsSingle (.source 0) m)
    (hm' : b.BindsSingle op.second m') {p : Nat} (hp : p < (s.contents t).singles.size) :
    (s'.contents t).single p = op.apply arith ((s.contents m).singles.getD p .zero)
      ((s.contents m').singles.getD p .zero) := by
  obtain ⟨t₁, m₁, m₂, ht₁, hm₁, hm₂, hsizes, hsize, rfl⟩ := (op.run_eq_ok_iff arith b s s').1 hrun
  obtain rfl := ht.unique ht₁
  obtain rfl := hm.unique hm₁
  obtain rfl := hm'.unique hm₂
  rw [Bytes.size_singles, hsize, Nat.mul_div_cancel_left _ (by decide)] at hp
  have hcount : (Array.zipWith (op.apply arith) (s.contents m).singles
      (s.contents m').singles).size = (s.contents m).singles.size := by
    rw [Array.size_zipWith, hsizes, Nat.min_self]
  have hp' := hcount.symm ▸ hp
  rw [Store.contents_put (by rw [Bytes.size_ofSingles, hcount, hsize]),
    Bytes.single_ofSingles hp', Array.getD_eq_getD_getElem?, Array.getElem?_eq_getElem hp',
    Array.getElem_zipWith]
  simp [Array.getD_eq_getD_getElem?, hp, hsizes.symm ▸ hp]

theorem element_of_run {b : Bindings} {s s' : Store} (hs : s.Has b)
    (hrun : op.run arith b s = .ok s') {t m m' : Memory} (ht : b.BindsSingle (.destination 0) t)
    (hm : b.BindsSingle (.source 0) m) (hm' : b.BindsSingle op.second m') {sizes : List Nat}
    (hshape : t.desc.shape = .ofSizes sizes) {index : Index} (hin : Index.InBounds sizes index) :
    s'.element t index =
      op.apply arith ((s.contents m).singles.getD (t.desc.layout.offset sizes index) .zero)
        ((s.contents m').singles.getD (t.desc.layout.offset sizes index) .zero) := by
  have hlt := Store.offset_lt_singles (hs _ t ht.1).2 ht.2 hshape hin
  unfold Store.element
  rw [Descriptor.sizes_of_shape hshape, op.single_of_run arith hrun ht hm hm' hlt]

theorem computes_of_run {b : Bindings} {s s' : Store} (hs : s.Has b)
    (haligned : op.Aligned b.descriptors) (hrun : op.run arith b s = .ok s') :
    op.Computes arith b s s' := by
  obtain ⟨t, m, m', ht, hm, hm', -⟩ := (op.run_eq_ok_iff arith b s s').1 hrun
  obtain ⟨sizes, hshape, -⟩ := Descriptor.Allocatable.sizes ⟨_, (hs _ t ht.1).2⟩
  -- the elements of an aligned source, by the places that the destination has for them
  have hsource : ∀ p n, p ∈ op.sources → b.BindsSingle p n → n.desc.shape = .ofSizes sizes ∧
      ∀ index, Index.InBounds sizes index →
        (s.contents n).singles.getD (t.desc.layout.offset sizes index) .zero =
          s.element n index := by
    intro p n hp hn
    obtain ⟨hsame, hagrees⟩ := haligned p hp _ _ (Bindings.descriptors_get?_of_get? hn.1)
      (Bindings.descriptors_get?_of_get? ht.1)
    have hnshape := hsame.trans hshape
    rw [Descriptor.sizes_of_shape hshape] at hagrees
    refine ⟨hnshape, fun index hin => ?_⟩
    rw [← hagrees index hin]
    exact Store.getD_singles (hs _ n hn.1).2 hn.2 hnshape hin
  obtain ⟨hmshape, hx⟩ := hsource _ m ((op.mem_sources_iff _).2 (.inl rfl)) hm
  obtain ⟨hmshape', hy⟩ := hsource _ m' ((op.mem_sources_iff _).2 (.inr rfl)) hm'
  refine ⟨s.tensor m sizes, s.tensor m' sizes, hm.hasTensor s hmshape, hm'.hasTensor s hmshape',
    rfl, t, ht, hshape, fun index hin => ?_⟩
  rw [op.element_of_run arith hs hrun ht hm hm' hshape hin, hx index hin, hy index hin]
  rfl

end Elementwise

/-! ## Matrix products -/

/-- The operand is bound to the tensor, or to nothing if there is none. -/
def Bindings.MayHaveTensor (b : Bindings) (s : Store) (p : Operand) : Option Tensor → Prop
  | none => b.get? p = none
  | some t => b.HasTensor s p t

theorem Layout.eq_planar_of_fitsRank_one {l : Layout} (h : l.fitsRank 1 = true) : l = .planar := by
  cases l with
  | planar => rfl
  | channelsLast => simp [fitsRank] at h
  | blocked block => simp [fitsRank] at h

/-- The indices of a matrix have a row and a column. -/
theorem Index.exists_row_column {rows columns : Nat} {index : Index}
    (h : InBounds [rows, columns] index) :
    ∃ row column, index = [row, column] ∧ row < rows ∧ column < columns := by
  obtain ⟨row, column, rest, rfl, hrow, hcolumn, hrest⟩ := Layout.exists_cons_of_inBounds h
  obtain rfl := List.length_eq_zero_iff.1 hrest.length_eq
  exact ⟨row, column, rfl, hrow, hcolumn⟩

/-- A matrix without padding has its elements where a planar one has them. -/
theorem Layout.agreesOn_planar_of_volume {l : Layout} {rows columns : Nat}
    (hfit : l.fitsRank [rows, columns].length = true)
    (hvolume : Index.volume (l.physicalSizes [rows, columns]) = rows * columns) :
    l.AgreesOn .planar [rows, columns] := by
  cases l with
  | planar => exact fun _ _ => rfl
  | channelsLast => simp [fitsRank] at hfit
  | blocked block =>
    intro index hin
    obtain ⟨i, j, rfl, hi, -⟩ := Index.exists_row_column hin
    have hcolumns : blocksFor columns block * block = columns := by
      simp only [physicalSizes, List.nil_append, Index.volume, List.foldr_cons, List.foldr_nil,
        Nat.mul_one] at hvolume
      exact Nat.eq_of_mul_eq_mul_left (by omega : 0 < rows) hvolume
    calc (i * blocksFor columns block + j / block) * block + j % block
        = i * (blocksFor columns block * block) + (j / block * block + j % block) := by
          rw [Nat.add_mul, Nat.mul_assoc, Nat.add_assoc]
      _ = i * columns + j := by rw [hcolumns, Nat.div_add_mod']
      _ = Index.position [rows, columns] [i, j] := by
          simp [Index.position, Index.positionFrom]

namespace MatMul

variable (arith : Arithmetic) (op : MatMul)

/-- The index of an element of the right factor, which may be stored by columns. -/
def weightIndex (k column : Nat) : Index := if op.transposed then [column, k] else [k, column]

theorem inBounds_weightIndex {z : ProductSizes} {k column : Nat} (hk : k < z.inner)
    (hcolumn : column < z.columns) :
    Index.InBounds (op.weightSizes z) (op.weightIndex k column) := by
  unfold weightSizes weightIndex
  split
  · exact ⟨hcolumn, hk, trivial⟩
  · exact ⟨hk, hcolumn, trivial⟩

/-- The product of tensors that have the sizes of factors. Each sum starts at the bias, or at zero,
    and takes its terms in order. -/
def result (z : ProductSizes) (x y : Tensor) (bias : Option Tensor) : Tensor where
  sizes := [z.rows, z.columns]
  element index := match index with
    | [row, column] =>
      let terms := (List.range z.inner).map fun k =>
        arith.mul (x.element [row, k]) (y.element (op.weightIndex k column))
      terms.foldl arith.add ((bias.map fun t => t.element [column]).getD .zero)
    | _ => .zero

/-- The operands are tensors that have the sizes of a product, and the destination is the
    product. -/
def Computes (b : Bindings) (s s' : Store) : Prop :=
  ∃ z x y bias, b.HasTensor s (.source 0) x ∧ x.sizes = [z.rows, z.inner] ∧
    b.HasTensor s .weights y ∧ y.sizes = op.weightSizes z ∧ b.MayHaveTensor s .bias bias ∧
    (∀ t, bias = some t → t.sizes = [z.columns]) ∧
    b.HasTensor s' (.destination 0) (op.result arith z x y bias)

/-- The factors have their elements where planar ones have them. -/
def Aligned (ds : Descriptors) : Prop :=
  ∀ p ∈ [Operand.source 0, .weights], ∀ d, ds.get? p = some d → d.layout.AgreesOn .planar d.sizes

theorem aligned_of_planar {ds : Descriptors} (h : ds.allInLayout .planar = true) : Aligned ds := by
  intro p _ d hd index _
  rw [(Descriptors.allInLayout_iff ds _).1 h p d hd]

/-- The bias that a run adds is the tensor that is bound. -/
theorem exists_bias {b : Bindings} {s : Store} (hs : s.Has b) {z : ProductSizes}
    (hz : op.Resolves b.descriptors z) {bias : Option (Array Single)}
    (hbias : biasElements b s = .ok bias) :
    ∃ t : Option Tensor, b.MayHaveTensor s .bias t ∧ (∀ t', t = some t' → t'.sizes = [z.columns]) ∧
      ∀ column < z.columns, (bias.map fun xs => xs.getD column .zero).getD .zero =
        (t.map fun t' => t'.element [column]).getD .zero := by
  unfold biasElements at hbias
  cases hget : b.get? .bias with
  | none =>
    rw [hget] at hbias
    cases hbias
    exact ⟨none, hget, fun _ h => (by cases h), fun _ _ => rfl⟩
  | some n =>
    rw [hget] at hbias
    cases hxs : b.elements s .bias with
    | error e =>
      rw [hxs] at hbias
      cases hbias
    | ok xs =>
      rw [hxs] at hbias
      cases hbias
      obtain ⟨m, hm, rfl⟩ := (b.elements_eq_ok_iff s _ xs).1 hxs
      have hshape : m.desc.shape = .ofSizes [z.columns] :=
        hz.bias _ (Bindings.descriptors_get?_of_get? hm.1)
      have hfits := (hs _ m hm.1).2
      have hplanar := Layout.eq_planar_of_fitsRank_one (hfits.fitsRank hshape)
      refine ⟨some (s.tensor m [z.columns]), hm.hasTensor s hshape, fun _ h => by cases h; rfl,
        fun column hcolumn => ?_⟩
      have hin : Index.InBounds [z.columns] [column] := ⟨hcolumn, trivial⟩
      have hget := Store.getD_singles hfits hm.2 hshape hin
      rw [hplanar, show Layout.planar.offset [z.columns] [column] = column by
        simp [Layout.offset, Index.position, Index.positionFrom]] at hget
      exact hget

/-- With aligned factors an entry of the product is the sum over the elements of the tensors. -/
theorem entry_product {b : Bindings} {s : Store} (hs : s.Has b) {z : ProductSizes}
    (hz : op.Resolves b.descriptors z) {m m' : Memory} (hm : b.BindsSingle (.source 0) m)
    (hm' : b.BindsSingle .weights m') (hleft : m.desc.layout.AgreesOn .planar [z.rows, z.inner])
    (hweights : m'.desc.layout.AgreesOn .planar (op.weightSizes z)) {bias : Option (Array Single)}
    {t : Option Tensor} {row column : Nat}
    (hbias : (bias.map fun xs => xs.getD column .zero).getD .zero =
      (t.map fun t' => t'.element [column]).getD .zero)
    (hrow : row < z.rows) (hcolumn : column < z.columns) :
    (op.product z s m m' bias).entry arith row column =
      (op.result arith z (s.tensor m [z.rows, z.inner]) (s.tensor m' (op.weightSizes z)) t).element
        [row, column] := by
  have hx : ∀ k < z.inner,
      (s.contents m).singles.getD (z.leftPosition row k) .zero = s.element m [row, k] := by
    intro k hk
    have hin : Index.InBounds [z.rows, z.inner] [row, k] := ⟨hrow, hk, trivial⟩
    have h := Store.getD_singles (hs _ m hm.1).2 hm.2 (hm.shape hz.left) hin
    rwa [hleft _ hin, show Layout.planar.offset [z.rows, z.inner] [row, k] = z.leftPosition row k by
      simp [Layout.offset, Index.position, Index.positionFrom, ProductSizes.leftPosition]] at h
  have hy : ∀ k < z.inner,
      (s.contents m').singles.getD (z.weightPosition op.transposed k column) .zero =
        s.element m' (op.weightIndex k column) := by
    intro k hk
    have hin := op.inBounds_weightIndex hk hcolumn
    have hplace : Layout.planar.offset (op.weightSizes z) (op.weightIndex k column) =
        z.weightPosition op.transposed k column := by
      unfold weightSizes weightIndex ProductSizes.weightPosition
      split <;> simp [Layout.offset, Index.position, Index.positionFrom]
    have h := Store.getD_singles (hs _ m' hm'.1).2 hm'.2 (hm'.shape hz.weights) hin
    rwa [hweights _ hin, hplace] at h
  have hstart : (op.product z s m m' bias).start column =
      (t.map fun t' => t'.element [column]).getD .zero := by
    rw [← hbias]
    cases bias <;> rfl
  rw [Product.entry_eq, hstart]
  refine congrArg (List.foldl arith.add _) (List.map_congr_left fun k hk => ?_)
  have hk : k < z.inner := List.mem_range.1 hk
  show arith.mul ((s.contents m).singles.getD (z.leftPosition row k) .zero)
    ((s.contents m').singles.getD (z.weightPosition op.transposed k column) .zero) = _
  rw [hx k hk, hy k hk]
  rfl

theorem computes_of_run {name : String} {schedule : Product.Schedule} {b : Bindings}
    {s s' : Store} (hs : s.Has b) (haligned : Aligned b.descriptors)
    (hrun : op.run arith name schedule b s = .ok s') : op.Computes arith b s s' := by
  obtain ⟨z, m, m', bias, t, hz, hm, hm', hbias, ht, htiles, -, hsize, rfl⟩ :=
    (op.run_eq_ok_iff arith name schedule b s s').1 hrun
  have hmshape := hm.shape hz.left
  have hmshape' := hm'.shape hz.weights
  have htshape := ht.shape hz.target
  obtain ⟨hcell, htfits⟩ := hs _ t ht.1
  have hagrees : ∀ p n sizes, p ∈ [Operand.source 0, .weights] → b.BindsSingle p n →
      n.desc.shape = .ofSizes sizes → n.desc.layout.AgreesOn .planar sizes := by
    intro p n sizes hp hn hshape
    have h := haligned p hp _ (Bindings.descriptors_get?_of_get? hn.1)
    rwa [Descriptor.sizes_of_shape hshape] at h
  have hleft := hagrees _ m _ (by simp) hm hmshape
  have hweights := hagrees _ m' _ (by simp) hm' hmshape'
  -- the destination has no padding, or it would not have the size of the product
  have htarget : t.desc.layout.AgreesOn .planar [z.rows, z.columns] := by
    refine Layout.agreesOn_planar_of_volume (htfits.fitsRank htshape) ?_
    have hvolume := htfits.size_eq ht.2 htshape
    rw [hsize] at hvolume
    exact (Nat.eq_of_mul_eq_mul_left (by decide : 0 < 4) hvolume).symm
  obtain ⟨bt, hbt, hbtsizes, hbtelement⟩ := op.exists_bias hs hz hbias
  refine ⟨z, s.tensor m _, s.tensor m' _, bt, hm.hasTensor s hmshape, rfl, hm'.hasTensor s hmshape',
    rfl, hbt, hbtsizes, t, ht, htshape, fun index hin => ?_⟩
  obtain ⟨row, column, rfl, hrow, hcolumn⟩ := Index.exists_row_column hin
  have hplace : t.desc.layout.offset [z.rows, z.columns] [row, column] =
      row * z.columns + column := by
    rw [htarget [row, column] ⟨hrow, hcolumn, trivial⟩]
    simp [Layout.offset, Index.position, Index.positionFrom]
  have hlt : row * z.columns + column < z.count := Index.digits_lt hrow hcolumn
  have hlt' : t.desc.layout.offset [z.rows, z.columns] [row, column] <
      ((op.product z s m m' bias).computed arith schedule).size := by
    rw [hplace, Product.size_computed]
    exact hlt
  rw [Store.element_put_ofSingles hcell htshape hlt', hplace]
  refine (Product.getD_computed arith (op.product z s m m' bias)
    (fun hschedule => htiles (by omega) hschedule) hrow hcolumn).trans ?_
  exact op.entry_product arith hs hz hm hm' hleft hweights (hbtelement column hcolumn) hrow
    hcolumn

end MatMul

/-! ## Poolings -/

/-- Where an element of a batch of images is when the channels are last. -/
theorem Layout.offset_channelsLast_images
    (batch channels height width image channel line column : Nat) :
    Layout.channelsLast.offset [batch, channels, height, width] [image, channel, line, column] =
      ((image * height + line) * width + column) * channels + channel := by
  simp [offset, Index.positionFrom]

namespace Pooling

variable (arith : Arithmetic) (op : Pooling)

/-- The pooled images: in each place what becomes of the elements under its window. -/
def result (g : PoolGeometry) (x : Tensor) : Tensor where
  sizes := g.outputSizes
  element index := match index with
    | [image, channel, line, column] =>
      op.pool arith <| (List.range op.window.height).flatMap fun i =>
        (List.range op.window.width).map fun j =>
          x.element [image, channel, line * op.stride.height + i, column * op.stride.width + j]
    | _ => .zero

/-- The windows fit into the input, and the output has an element for each of them. -/
structure Covers (g : PoolGeometry) : Prop where
  height : op.outputExtent? 0 g.input.height = some g.output.height
  width : op.outputExtent? 1 g.input.width = some g.output.width

/-- The source is a batch of images that the windows fit into, and the destination is its
    pooling. -/
def Computes (b : Bindings) (s s' : Store) : Prop :=
  ∃ g x, b.HasTensor s (.source 0) x ∧ x.sizes = g.inputSizes ∧ op.Covers g ∧
    b.HasTensor s' (.destination 0) (op.result arith g x)

/-- A window lies inside the input. -/
theorem window_lt {axis : Fin 2} {n m : Nat} (h : op.outputExtent? axis n = some m) {place i : Nat}
    (hplace : place < m) (hi : i < op.window.along axis) :
    place * op.stride.along axis + i < n := by
  have hfits := (op.forall_fits_iff h m).2 (Nat.le_refl m) place hplace
  omega

theorem Covers.inBounds {op : Pooling} {g : PoolGeometry} (h : op.Covers g)
    {image channel line column i j : Nat} (himage : image < g.batch)
    (hchannel : channel < g.channels) (hline : line < g.output.height)
    (hcolumn : column < g.output.width) (hi : i < op.window.height) (hj : j < op.window.width) :
    Index.InBounds g.inputSizes
      [image, channel, line * op.stride.height + i, column * op.stride.width + j] :=
  ⟨himage, hchannel, op.window_lt h.height hline hi, op.window_lt h.width hcolumn hj, trivial⟩

/-- An element of the output is found where the channels are last. -/
theorem getD_computed (g : PoolGeometry) (xs : Array Single) {image line column channel : Nat}
    (himage : image < g.batch) (hline : line < g.output.height) (hcolumn : column < g.output.width)
    (hchannel : channel < g.channels) :
    (op.computed arith g xs).getD
        (((image * g.output.height + line) * g.output.width + column) * g.channels + channel)
        .zero =
      op.pool arith (op.windowElements g xs image line column channel) := by
  have hplace : column * g.channels + channel < g.lineLength := Index.digits_lt hcolumn hchannel
  have hrow : image * g.output.height + line < g.lines := Index.digits_lt himage hline
  have hposition : ((image * g.output.height + line) * g.output.width + column) * g.channels +
      channel = (image * g.output.height + line) * g.lineLength +
        (column * g.channels + channel) := by
    rw [PoolGeometry.lineLength, Nat.add_mul, Nat.mul_assoc, Nat.add_assoc]
  have hlines : ∀ r ∈ List.range g.lines, (op.outputLine arith g xs (r / g.output.height)
      (r % g.output.height)).length = g.lineLength := fun r _ => by
    rw [outputLine, List.length_map, List.length_range]
  rw [hposition, computed, if_neg (by omega), Array.getD_eq_getD_getElem?, List.getElem?_toArray,
    getElem?_flatMap_of_length hlines _ hplace, List.getElem?_range hrow, Option.bind_some,
    outputLine, List.getElem?_map, List.getElem?_range hplace]
  simp only [Index.digits_div hline, Index.digits_mod hline, Option.map_some,
    Index.digits_div hchannel, Index.digits_mod hchannel, Option.getD_some]

theorem computes_of_run {b : Bindings} {s s' : Store} (hs : s.Has b)
    (hrun : op.run arith b s = .ok s') : op.Computes arith b s s' := by
  obtain ⟨g, m, t, ⟨hg, hlast⟩, hm, ht, hsize, rfl⟩ := (op.run_eq_ok_iff arith b s s').1 hrun
  have hmshape := hm.shape hg.source
  have htshape := ht.shape hg.target
  have hlayout : ∀ p n, p ∈ [Operand.source 0, .destination 0] → b.BindsSingle p n →
      n.desc.layout = .channelsLast := fun p n hp hn =>
    hlast p hp _ (Bindings.descriptors_get?_of_get? hn.1)
  obtain ⟨hcell, htfits⟩ := hs _ t ht.1
  have hcovers : op.Covers g := ⟨hg.height, hg.width⟩
  refine ⟨g, s.tensor m g.inputSizes, hm.hasTensor s hmshape, rfl, hcovers, t, ht, htshape,
    fun index hin => ?_⟩
  have hlt := Store.offset_lt_singles htfits ht.2 htshape hin
  rw [Bytes.size_singles, hsize, Nat.mul_div_cancel_left _ (by decide)] at hlt
  rw [Store.element_put_ofSingles hcell htshape hlt, hlayout _ t (by simp) ht]
  match index, hin with
  | [image, channel, line, column], ⟨himage, hchannel, hline, hcolumn, _⟩ =>
    rw [PoolGeometry.outputSizes, Layout.offset_channelsLast_images,
      op.getD_computed arith g _ himage hline hcolumn hchannel]
    refine congrArg (fun lines => op.pool arith (List.flatten lines))
      (List.map_congr_left fun i hi => List.map_congr_left fun j hj => ?_)
    have hin := hcovers.inBounds himage hchannel hline hcolumn (List.mem_range.1 hi)
      (List.mem_range.1 hj)
    have hget := Store.getD_singles (hs _ m hm.1).2 hm.2 hmshape hin
    rw [hlayout _ m (by simp) hm, PoolGeometry.inputSizes, Layout.offset_channelsLast_images]
      at hget
    exact hget

end Pooling

end KernelDispatch
