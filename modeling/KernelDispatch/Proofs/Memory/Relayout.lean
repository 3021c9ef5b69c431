import KernelDispatch.Proofs.Memory.Conversion

/-
  Other layouts for the same tensor. A planar buffer, or one with the channels last, is never larger
  than a buffer that exists in another layout, so with positive extents it exists too
  (`Descriptor.Allocatable.inLayout`).
-/

namespace KernelDispatch

/-! ## Extents -/

theorem Shape.extents_of_sizes? {s : Shape} {sizes : List Nat} (h : s.sizes? = some sizes) :
    s.extents = sizes.map .known := by
  have hmap : ∀ (es : List Extent) (ns : List Nat), es.mapM Extent.value? = some ns →
      es = ns.map .known := by
    intro es
    induction es with
    | nil =>
      rintro ns ⟨⟩
      rfl
    | cons e es ih =>
      intro ns hns
      simp only [List.mapM_cons, bind, Option.bind_eq_some_iff, pure, Option.some.injEq] at hns
      obtain ⟨n, hn, ns', hns', rfl⟩ := hns
      cases e with
      | known m =>
        cases hn
        rw [List.map_cons, ih ns' hns']
      | unknown => cases hn
  exact hmap s.extents sizes h

@[simp] theorem Shape.sizes?_ofSizes (sizes : List Nat) :
    (Shape.ofSizes sizes).sizes? = some sizes := by
  show (sizes.map Extent.known).mapM Extent.value? = some sizes
  induction sizes with
  | nil => rfl
  | cons n sizes ih =>
    rw [List.map_cons, List.mapM_cons, ih]
    rfl

theorem Shape.isStatic_ofSizes (sizes : List Nat) : (Shape.ofSizes sizes).isStatic = true := by
  simp [isStatic, ofSizes]

theorem Shape.sizes?_eq_some_iff (s : Shape) (sizes : List Nat) :
    s.sizes? = some sizes ↔ s = .ofSizes sizes := by
  constructor
  · intro h
    obtain ⟨es⟩ := s
    exact congrArg Shape.mk (extents_of_sizes? h)
  · rintro rfl
    exact sizes?_ofSizes sizes

theorem Shape.ofSizes_injective {sizes sizes' : List Nat} (h : Shape.ofSizes sizes = .ofSizes sizes') :
    sizes = sizes' := by
  have hsizes := (Shape.sizes?_eq_some_iff (.ofSizes sizes) sizes').2 h
  rw [Shape.sizes?_ofSizes] at hsizes
  exact Option.some.inj hsizes

theorem Shape.isStatic_iff (s : Shape) : s.isStatic = true ↔ ∃ sizes, s = .ofSizes sizes := by
  constructor
  · intro h
    refine ⟨s.extents.filterMap Extent.value?, ?_⟩
    obtain ⟨es⟩ := s
    have hknown : ∀ es : List Extent, (es.all fun e => e != .unknown) = true →
        es = (es.filterMap Extent.value?).map .known := by
      intro es
      induction es with
      | nil => exact fun _ => rfl
      | cons e es ih =>
        intro hes
        obtain ⟨he, hes⟩ := Bool.and_eq_true_iff.1 hes
        cases e with
        | known n =>
          exact congrArg (Extent.known n :: ·) (ih hes)
        | unknown => cases he
    exact congrArg Shape.mk (hknown es h)
  · rintro ⟨sizes, rfl⟩
    exact isStatic_ofSizes sizes

@[simp] theorem Shape.rank_ofSizes (sizes : List Nat) : (Shape.ofSizes sizes).rank = sizes.length :=
  List.length_map _

/-! ## Sizes of buffers -/

namespace Index

theorem volume_append_singleton (sizes : List Nat) (n : Nat) :
    volume (sizes ++ [n]) = volume sizes * n := by
  induction sizes with
  | nil => simp
  | cons m sizes ih => rw [List.cons_append, volume_cons, volume_cons, ih, Nat.mul_assoc]

theorem volume_pos {sizes : List Nat} (h : ∀ n ∈ sizes, 0 < n) : 0 < volume sizes := by
  induction sizes with
  | nil => exact Nat.one_pos
  | cons n sizes ih =>
    obtain ⟨hn, hrest⟩ := List.forall_mem_cons.1 h
    exact Nat.mul_pos hn (ih hrest)

end Index

/-- With positive factors no partial product exceeds the whole. -/
theorem productFrom?_of_pos {acc : Nat} {sizes : List Nat} (h : ∀ n ∈ sizes, 0 < n)
    (hlt : acc * Index.volume sizes < sizeLimit) :
    productFrom? acc sizes = some (acc * Index.volume sizes) := by
  induction sizes generalizing acc with
  | nil =>
    show some acc = some (acc * 1)
    rw [Nat.mul_one]
  | cons n sizes ih =>
    obtain ⟨hn, hrest⟩ := List.forall_mem_cons.1 h
    rw [Index.volume_cons, ← Nat.mul_assoc] at hlt ⊢
    have hpartial : acc * n < sizeLimit :=
      Nat.lt_of_le_of_lt (Nat.le_mul_of_pos_right _ (Index.volume_pos hrest)) hlt
    rw [productFrom?, times?_eq_some.2 ⟨rfl, hpartial⟩, Option.bind_some, ih hrest hlt]

namespace Layout

/-- The layouts whose buffers hold the logical elements and nothing else. -/
def isPermutation : Layout → Bool
  | planar | channelsLast => true
  | blocked _ => false

theorem volume_physicalSizes_of_isPermutation {l : Layout} (hl : l.isPermutation = true)
    (sizes : List Nat) : Index.volume (l.physicalSizes sizes) = Index.volume sizes := by
  match l, sizes with
  | planar, _ => rfl
  | channelsLast, [] => rfl
  | channelsLast, [_] => rfl
  | channelsLast, n :: c :: rest =>
    show n * Index.volume (rest ++ [c]) = n * (c * Index.volume rest)
    rw [Index.volume_append_singleton, Nat.mul_comm c]

theorem pos_of_physicalSizes_of_isPermutation {l : Layout} (hl : l.isPermutation = true)
    {sizes : List Nat} (h : ∀ n ∈ sizes, 0 < n) : ∀ n ∈ l.physicalSizes sizes, 0 < n := by
  match l, sizes with
  | planar, _ => exact h
  | channelsLast, [] => exact h
  | channelsLast, [_] => exact h
  | channelsLast, n :: c :: rest =>
    intro m hm
    refine h m ?_
    simp only [physicalSizes, List.mem_cons, List.mem_append, List.not_mem_nil, or_false] at hm ⊢
    exact hm.imp_right Or.symm

/-- No buffer is smaller than its logical tensor. -/
theorem volume_le_volume_physicalSizes {l : Layout} {sizes : List Nat}
    (hfit : l.fitsRank sizes.length = true) :
    Index.volume sizes ≤ Index.volume (l.physicalSizes sizes) := by
  cases hl : l.isPermutation with
  | true => exact Nat.le_of_eq (volume_physicalSizes_of_isPermutation hl sizes).symm
  | false =>
    cases l with
    | planar => cases hl
    | channelsLast => cases hl
    | blocked block =>
      obtain ⟨n, c, rest, rfl⟩ := exists_cons_of_fitsRank hfit (by simp)
      show n * (c * Index.volume rest) ≤ n * (blocksFor c block * Index.volume (rest ++ [block]))
      rw [Index.volume_append_singleton]
      refine Nat.mul_le_mul_left n ?_
      calc c * Index.volume rest
          ≤ blocksFor c block * block * Index.volume rest :=
            Nat.mul_le_mul_right _ (le_blocksFor_mul c (pos_of_fitsRank hfit))
        _ = blocksFor c block * (Index.volume rest * block) := by
            rw [Nat.mul_assoc, Nat.mul_comm block]

end Layout

/-! ## Descriptors -/

namespace Descriptor

/-- The same operand in another layout. -/
def inLayout (d : Descriptor) (l : Layout) : Descriptor := { d with layout := l }

@[simp] theorem inLayout_elementType (d : Descriptor) (l : Layout) :
    (d.inLayout l).elementType = d.elementType := rfl

@[simp] theorem inLayout_shape (d : Descriptor) (l : Layout) : (d.inLayout l).shape = d.shape := rfl

@[simp] theorem inLayout_layout (d : Descriptor) (l : Layout) : (d.inLayout l).layout = l := rfl

theorem inLayout_self (d : Descriptor) : d.inLayout d.layout = d := rfl

/-- No extent is zero. -/
def IsPositive (d : Descriptor) : Prop := Extent.known 0 ∉ d.shape.extents

instance (d : Descriptor) : Decidable d.IsPositive :=
  inferInstanceAs (Decidable (_ ∉ d.shape.extents))

theorem Allocatable.isWellFormed {d : Descriptor} (h : d.Allocatable) : d.isWellFormed = true := by
  obtain ⟨n, hn⟩ := h
  unfold requiredBytes at hn
  split at hn
  · cases hn
  · rename_i hformed
    simpa using hformed

theorem Allocatable.isStatic {d : Descriptor} (h : d.Allocatable) : d.isStatic = true := by
  obtain ⟨n, hn⟩ := h
  obtain ⟨sizes, hsizes, -⟩ := requiredBytes_eq_ok hn
  exact (Shape.isStatic_iff _).2 ⟨sizes, (Shape.sizes?_eq_some_iff _ _).1 hsizes⟩

theorem requiredBytes_eq_ok_iff (d : Descriptor) (n : Nat) : d.requiredBytes = .ok n ↔
    d.isWellFormed = true ∧ d.isStatic = true ∧ d.byteSize? = some n := by
  unfold requiredBytes
  cases d.isWellFormed <;> cases d.isStatic <;> cases d.byteSize? <;> simp

/-- A tensor with positive extents that exists in some layout also exists in a layout without
    padding that can take its rank. -/
theorem Allocatable.inLayout {d : Descriptor} (h : d.Allocatable) (hpos : d.IsPositive) {l : Layout}
    (hl : l.isPermutation = true) (hfit : l.fitsRank d.rank = true) :
    (d.inLayout l).Allocatable := by
  obtain ⟨n, hn⟩ := h
  obtain ⟨-, hstatic, hbytes⟩ := (requiredBytes_eq_ok_iff d n).1 hn
  obtain ⟨sizes, hsizes, hfit', hcount⟩ := requiredBytes_eq_ok hn
  have hshape := (Shape.sizes?_eq_some_iff _ _).1 hsizes
  have hsizespos : ∀ m ∈ sizes, 0 < m := by
    intro m hm
    refine Nat.pos_of_ne_zero fun hzero => hpos ?_
    rw [hshape, ← hzero]
    exact List.mem_map_of_mem hm
  have hlt : n < sizeLimit := by
    simp only [byteSize?, Option.bind_eq_some_iff] at hbytes
    obtain ⟨count, -, htimes⟩ := hbytes
    exact (times?_eq_some.1 htimes).2
  have hvolume := Layout.volume_physicalSizes_of_isPermutation hl sizes
  have hle : Index.volume sizes * d.elementType.width ≤ n := by
    rw [hcount]
    exact Nat.mul_le_mul_right _ (Layout.volume_le_volume_physicalSizes hfit')
  have hproduct : product? (l.physicalSizes sizes) = some (Index.volume sizes) := by
    rw [← hvolume, ← Nat.one_mul (Index.volume (l.physicalSizes sizes))]
    refine productFrom?_of_pos (Layout.pos_of_physicalSizes_of_isPermutation hl hsizespos) ?_
    rw [hvolume, Nat.one_mul]
    have hwidth := d.elementType.width_pos
    exact Nat.lt_of_le_of_lt (Nat.le_mul_of_pos_right _ hwidth) (Nat.lt_of_le_of_lt hle hlt)
  refine ⟨Index.volume sizes * d.elementType.width, ?_⟩
  rw [requiredBytes_eq_ok_iff]
  refine ⟨hfit, hstatic, ?_⟩
  have hformed : (d.inLayout l).isWellFormed = true := hfit
  simp only [byteSize?, elementCount?, inLayout_shape, hsizes, Option.bind_some, hformed, if_true,
    inLayout_layout, Layout.elementCount?, hproduct, inLayout_elementType]
  exact times?_eq_some.2 ⟨rfl, Nat.lt_of_le_of_lt hle hlt⟩

end Descriptor

end KernelDispatch
