import KernelDispatch.Proofs.Memory.Relayout

/-
  Which descriptors can be backed. The size of a buffer is a product that is formed from the left
  with every step checked, so there is memory for a static descriptor of the right rank exactly when
  no partial product leaves the range (`Descriptor.allocatable_iff`). Without a zero among the
  extents that is the same as for the size itself to be in range (`Descriptor.inRange_iff`); but a
  zero behind a partial product that is out of range comes too late.
-/

namespace KernelDispatch

/-! ## Checked products -/

/-- A checked product exists exactly when every partial product is in range. -/
theorem exists_productFrom?_iff {acc : Nat} (hacc : acc < sizeLimit) (sizes : List Nat) :
    (∃ n, productFrom? acc sizes = some n) ↔
      ∀ k, acc * Index.volume (sizes.take k) < sizeLimit := by
  induction sizes generalizing acc with
  | nil =>
    refine ⟨fun _ k => ?_, fun _ => ⟨acc, rfl⟩⟩
    rw [List.take_nil, Index.volume_nil, Nat.mul_one]
    exact hacc
  | cons m sizes ih =>
    have hstep : ∀ k, acc * Index.volume ((m :: sizes).take (k + 1)) =
        acc * m * Index.volume (sizes.take k) := fun k => by
      rw [List.take_succ_cons, Index.volume_cons, Nat.mul_assoc]
    constructor
    · rintro ⟨n, hn⟩ k
      simp only [productFrom?, Option.bind_eq_some_iff] at hn
      obtain ⟨p, hp, hrest⟩ := hn
      obtain ⟨rfl, hrange⟩ := times?_eq_some.1 hp
      cases k with
      | zero =>
        rw [List.take_zero, Index.volume_nil, Nat.mul_one]
        exact hacc
      | succ k =>
        rw [hstep]
        exact (ih hrange).1 ⟨n, hrest⟩ k
    · intro hall
      have hrange : acc * m < sizeLimit := by
        have hfirst := hall 1
        rw [hstep 0, List.take_zero, Index.volume_nil, Nat.mul_one] at hfirst
        exact hfirst
      obtain ⟨n, hn⟩ := (ih hrange).2 fun k => hstep k ▸ hall (k + 1)
      refine ⟨n, ?_⟩
      rw [productFrom?, times?_eq_some.2 ⟨rfl, hrange⟩, Option.bind_some, hn]

theorem productFrom?_append_singleton (acc : Nat) (sizes : List Nat) (n : Nat) :
    productFrom? acc (sizes ++ [n]) = (productFrom? acc sizes).bind fun p => times? p n := by
  induction sizes generalizing acc with
  | nil =>
    show ((times? acc n).bind fun p => some p) = times? acc n
    exact Option.bind_fun_some _
  | cons m sizes ih =>
    rw [List.cons_append, productFrom?, productFrom?, Option.bind_assoc]
    exact congrArg _ (funext ih)

theorem Index.volume_take_le {sizes : List Nat} (h : ∀ n ∈ sizes, 0 < n) (k : Nat) :
    volume (sizes.take k) ≤ volume sizes := by
  induction sizes generalizing k with
  | nil => exact Nat.le_of_eq (congrArg volume List.take_nil)
  | cons m sizes ih =>
    obtain ⟨hm, hrest⟩ := List.forall_mem_cons.1 h
    cases k with
    | zero => exact volume_pos h
    | succ k => exact Nat.mul_le_mul_left m (ih hrest k)

namespace Layout

/-- The extents of a buffer are positive if those of its tensor are. -/
theorem pos_of_physicalSizes {l : Layout} {sizes : List Nat} (hfit : l.fitsRank sizes.length = true)
    (h : ∀ n ∈ sizes, 0 < n) : ∀ n ∈ l.physicalSizes sizes, 0 < n := by
  cases hl : l.isPermutation with
  | true => exact pos_of_physicalSizes_of_isPermutation hl h
  | false =>
    cases l with
    | planar => cases hl
    | channelsLast => cases hl
    | blocked block =>
      obtain ⟨n, c, rest, rfl⟩ := exists_cons_of_fitsRank hfit (by simp)
      have hblock : 0 < block := pos_of_fitsRank hfit
      have hc : 0 < blocksFor c block := by
        have hle := le_blocksFor_mul c hblock
        have hpos : 0 < blocksFor c block * block :=
          Nat.lt_of_lt_of_le (h c (List.mem_cons_of_mem _ List.mem_cons_self)) hle
        exact Nat.pos_of_mul_pos_right hpos
      intro m hm
      simp only [physicalSizes, List.mem_cons, List.mem_append, List.not_mem_nil, or_false] at hm
      rcases hm with rfl | rfl | hm | rfl
      · exact h _ List.mem_cons_self
      · exact hc
      · exact h m (List.mem_cons_of_mem _ (List.mem_cons_of_mem _ hm))
      · exact hblock

end Layout

/-! ## Descriptors -/

namespace Descriptor

/-- What the size of a buffer is the product of: the extents of the buffer, then the width of an
    element. -/
def factors (d : Descriptor) : List Nat :=
  d.layout.physicalSizes d.sizes ++ [d.elementType.width]

/-- No partial product of the factors, from the left, leaves the range of sizes. -/
def InRange (d : Descriptor) : Prop := ∀ k, Index.volume (d.factors.take k) < sizeLimit

theorem byteSize?_eq {d : Descriptor} (hstatic : d.isStatic = true)
    (hformed : d.isWellFormed = true) : d.byteSize? = product? d.factors := by
  obtain ⟨sizes, hshape⟩ := (Shape.isStatic_iff _).1 hstatic
  have hsizes : d.shape.sizes? = some sizes := (Shape.sizes?_eq_some_iff _ _).2 hshape
  simp only [byteSize?, elementCount?, Layout.elementCount?, factors, Descriptor.sizes, hsizes,
    Option.bind_some, Option.getD_some, hformed, if_true]
  exact (productFrom?_append_singleton 1 _ _).symm

/-- The bytes of a memory are the product of the factors. -/
theorem eq_volume_factors {d : Descriptor} {n : Nat} (h : d.requiredBytes = .ok n) :
    n = Index.volume d.factors := by
  rw [factors, Index.volume_append_singleton]
  exact (Store.requiredBytes_size h).2

/-- There is memory for a descriptor exactly if it is static, its layout takes its rank and its size
    is formed in range. -/
theorem allocatable_iff (d : Descriptor) :
    d.Allocatable ↔ d.isStatic = true ∧ d.isWellFormed = true ∧ d.InRange := by
  have hproduct : (∃ n, product? d.factors = some n) ↔ d.InRange := by
    have hpartial : (∃ n, productFrom? 1 d.factors = some n) ↔
        ∀ k, 1 * Index.volume (d.factors.take k) < sizeLimit :=
      exists_productFrom?_iff (by decide) d.factors
    simp only [Nat.one_mul] at hpartial
    exact hpartial
  constructor
  · rintro ⟨n, hn⟩
    obtain ⟨hformed, hstatic, hsize⟩ := (requiredBytes_eq_ok_iff d n).1 hn
    rw [byteSize?_eq hstatic hformed] at hsize
    exact ⟨hstatic, hformed, hproduct.1 ⟨n, hsize⟩⟩
  · rintro ⟨hstatic, hformed, hrange⟩
    obtain ⟨n, hn⟩ := hproduct.2 hrange
    exact ⟨n, (requiredBytes_eq_ok_iff d n).2
      ⟨hformed, hstatic, (byteSize?_eq hstatic hformed).trans hn⟩⟩

/-- With positive extents the size itself is the largest partial product. -/
theorem inRange_iff {d : Descriptor} (hstatic : d.isStatic = true)
    (hformed : d.isWellFormed = true) (hpos : d.IsPositive) :
    d.InRange ↔ Index.volume d.factors < sizeLimit := by
  obtain ⟨sizes, hshape⟩ := (Shape.isStatic_iff _).1 hstatic
  have hsizes : d.sizes = sizes := by
    rw [Descriptor.sizes, hshape, Shape.sizes?_ofSizes, Option.getD_some]
  have hextents : ∀ n ∈ sizes, 0 < n := fun n hn => Nat.pos_of_ne_zero fun hzero => hpos <| by
    rw [hshape, ← hzero]
    exact List.mem_map_of_mem hn
  have hfactors : ∀ n ∈ d.factors, 0 < n := by
    have hfit : d.layout.fitsRank sizes.length = true := by
      rw [isWellFormed, rank, hshape, Shape.rank_ofSizes] at hformed
      exact hformed
    rw [factors, hsizes]
    intro n hn
    rcases List.mem_append.1 hn with hn | hn
    · exact Layout.pos_of_physicalSizes hfit hextents n hn
    · rw [List.mem_singleton.1 hn]
      exact d.elementType.width_pos
  constructor
  · intro hrange
    have hwhole := hrange d.factors.length
    rw [List.take_length] at hwhole
    exact hwhole
  · exact fun hlt k => Nat.lt_of_le_of_lt (Index.volume_take_le hfactors k) hlt

end Descriptor

end KernelDispatch
